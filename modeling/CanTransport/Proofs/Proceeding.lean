import CanTransport.Proofs.Orderliness

/-! # Programs that proceed by transitions

A program that is run while calls are in progress lets go of all locks that it has taken, and leaves
nothing in hand that was not there before. In between it goes from stage to stage by transitions
only.
-/
namespace CanTransport
open CanTransport.Action

/-- The locks held bear out what is in hand. -/
structure Fits (g : Hand) (c : Scene) : Prop where
  orderly : Orderly ⟨c, g⟩
  locked : ∀ id ∈ g.busy, .endpoint id ∈ c.held
  gated : .gate ∈ c.held ∨ g.untold = [] ∧ g.told = []

/-- A path that ends with the same locks held and the same things in hand. -/
structure Proceeds (g : Hand) (c c' : Scene) : Prop where
  path : Path ⟨c, g⟩ ⟨c', g⟩
  held : c'.held = c.held

/-- Calls made from within proceed in this way. -/
def Sound (inner : Scene → Scene → Prop) : Prop := ∀ g c c', Fits g c → inner c c' → Proceeds g c c'

variable {α : Type} {inner : Scene → Scene → Prop} {g : Hand} {c c' c₁ c₂ : Scene} {l : Lock}

theorem Fits.congr (hg : Fits g c) (ho : Orderly ⟨c', g⟩) (hh : c'.held = c.held) : Fits g c' :=
  ⟨ho, hh ▸ hg.locked, hh ▸ hg.gated⟩

theorem Fits.proceed (hg : Fits g c) (h : Proceeds g c c') : Fits g c' :=
  hg.congr (h.path.orderly hg.orderly) h.held

theorem Fits.lock (hg : Fits g c) (lock : Lock) : Fits g (c.lock lock) where
  orderly := ((Transition.locks (lock :: c.held)).follows hg.orderly).orderly
  locked id hid := List.mem_cons_of_mem _ (hg.locked id hid)
  gated := hg.gated.imp_left (List.mem_cons_of_mem _)

theorem Fits.take {t : Task} (hg : Fits g c) (hl : .endpoint t.id ∈ c.held)
    (path : Path ⟨c, g⟩ ⟨c₁, { g with tasks := t :: g.tasks }⟩) (hh : c₁.held = c.held) :
    Fits { g with tasks := t :: g.tasks } c₁ := by
  refine ⟨path.orderly hg.orderly, fun id hid => ?_, hh ▸ hg.gated⟩
  rw [hh]
  rcases List.mem_cons.mp hid with rfl | hid
  · exact hl
  · exact hg.locked id hid

theorem Fits.turn {g' : Hand} (hg : Fits g c) (hgate : .gate ∈ c.held) (path : Path ⟨c, g⟩ ⟨c₁, g'⟩)
    (ht : g'.tasks = g.tasks) (hh : c₁.held = c.held) : Fits g' c₁ := by
  refine ⟨path.orderly hg.orderly, ?_, .inl (hh ▸ hgate)⟩
  rw [Hand.busy, ht, hh]
  exact hg.locked

/-- An endpoint whose lock is free has nothing under way. -/
theorem Fits.idle (hg : Fits g c) {id : EndpointId} (h : .endpoint id ∉ c.held) : id ∉ g.busy :=
  fun hid => h (hg.locked id hid)

theorem Proceeds.refl (g : Hand) (c : Scene) : Proceeds g c c := ⟨.refl _, rfl⟩

theorem Proceeds.trans (h : Proceeds g c c₁) (h' : Proceeds g c₁ c₂) : Proceeds g c c₂ :=
  ⟨h.path.trans h'.path, h'.held.trans h.held⟩

theorem Proceeds.single (t : Transition ⟨c, g⟩ ⟨c', g⟩) (hh : c'.held = c.held) : Proceeds g c c' :=
  ⟨.single t, hh⟩

theorem Proceeds.under (h : Proceeds g (c.lock l) c₁) : Proceeds g c (c₁.unlock l) where
  path := ((Path.single (.locks _)).trans h.path).tail (.locks _)
  held := by
    change c₁.held.erase l = c.held
    rw [h.held]
    exact List.erase_cons_head _ _

theorem unlock_lock (c : Scene) (lock : Lock) : (c.lock lock).unlock lock = c := by
  change { c with held := (lock :: c.held).erase lock } = c
  rw [List.erase_cons_head]

theorem unlock_access_lock (c : Scene) (l : Lock) (f : Station → Station) :
    ((c.lock l).access f).unlock l = c.access f := unlock_lock (c.access f) l

theorem access_congr {f : Station → Station} (f' : Station → Station)
    (h : f c.station = f' c.station) : c.access f = c.access f' := by
  simp only [Scene.access, h]

theorem access_eq_self {f : Station → Station} (h : f c.station = c.station) : c.access f = c :=
  (access_congr id h).trans (access_id c)

/-- A body that proceeds with the lock held proceeds under it. -/
theorem proceeds_withLock {body : Action α} {a : Except LockTimeout α} (hg : Fits g c)
    (h : (withLock l body).Ends inner c a c')
    (hbody : ∀ b c₁, l ∉ c.held → Fits g (c.lock l) → body.Ends inner (c.lock l) b c₁ →
      Proceeds g (c.lock l) c₁) : Proceeds g c c' := by
  rcases ends_withLock.mp h with ⟨-, rfl⟩ | ⟨hfree, b, c₁, hb, -, rfl⟩
  · exact .refl g c'
  · exact (hbody b c₁ hfree (hg.lock l) hb).under

theorem Sound.now (hi : Sound inner) (hg : Fits g c) {clock : Micros}
    (h : now.Ends inner c clock c') :
    Proceeds g c c' := by
  obtain ⟨_, -, h⟩ := ends_ask.mp h
  exact hi g c c' hg h

theorem ends_look {a : Except LockTimeout Station} (h : (withLock l get).Ends inner c a c') :
    c' = c ∧ ∀ s, a = .ok s → s = c.station := by
  rcases ends_withLock.mp h with ⟨rfl, rfl⟩ | ⟨-, b, c₁, hb, rfl, rfl⟩
  · exact ⟨rfl, nofun⟩
  · obtain ⟨rfl, rfl⟩ := ends_get.mp hb
    exact ⟨unlock_lock c l, fun s hs => by cases hs; rfl⟩

theorem ends_read {view : Station → α} {a : Except LockTimeout α}
    (h : (withLock l (get.bind fun s => .done (view s))).Ends inner c a c') :
    c' = c ∧ ∀ v, a = .ok v → v = view c.station := by
  rcases ends_withLock.mp h with ⟨rfl, rfl⟩ | ⟨-, b, c₁, hb, rfl, rfl⟩
  · exact ⟨rfl, nofun⟩
  · obtain ⟨s, c₂, hs, rfl, rfl⟩ := ends_bind.mp hb
    obtain ⟨rfl, rfl⟩ := ends_get.mp hs
    refine ⟨unlock_lock c l, fun v hv => ?_⟩
    cases hv
    rfl

theorem ends_reading {view : Station → α} {a : Except LockTimeout α}
    (h : (withLock l (get.bind fun s => .done (view s))).Ends inner c a c') :
    c' = c := (ends_read h).1

end CanTransport
