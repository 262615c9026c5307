import CanTransport.Proofs.Proceeding

/-! # How far a setter comes

A setter stores its value in the settings and then goes through the conversations, each under its
own lock. Where a lock is not had it gives up, and what it has stored by then stays. So it may fail
with the new value in the settings and in the receivers up to some point of their order, and in no
others.
-/
namespace CanTransport
open CanTransport.Action

/-- Which lock a question asks for, and whether it is had. -/
def Query.asked : (q : Query) → q.Answer → List (Lock × Bool)
  | .acquire lock, had => [(lock, had)]
  | _, _ => []

/-- From `c` the program may end with value `a` in `c'`, after it has asked for these locks. -/
def Program.EndsAsking {α : Type} (inner : Scene → Scene → Prop) :
    Action α → Scene → List (Lock × Bool) → α → Scene → Prop
  | .done value, c, asked, a, c' => asked = [] ∧ a = value ∧ c' = c
  | .ask q next, c, asked, a, c' => ∃ answer c₁ rest, c.Answers inner q answer c₁ ∧
      asked = q.asked answer ++ rest ∧ (next answer).EndsAsking inner c₁ rest a c'

namespace Action
variable {α β : Type} {inner : Scene → Scene → Prop} {c c' : Scene} {asked : List (Lock × Bool)}

theorem ends_iff_asking {p : Action α} {a : α} :
    p.Ends inner c a c' ↔ ∃ asked, p.EndsAsking inner c asked a c' := by
  induction p generalizing c with
  | done value => simp [Program.Ends, Program.EndsAsking]
  | ask q next ih =>
    constructor
    · rintro ⟨answer, c₁, ha, h⟩
      obtain ⟨rest, h⟩ := (ih answer).mp h
      exact ⟨_, answer, c₁, rest, ha, rfl, h⟩
    · rintro ⟨_, answer, c₁, rest, ha, -, h⟩
      exact ⟨answer, c₁, ha, (ih answer).mpr ⟨rest, h⟩⟩

theorem asking_bind {p : Action α} {f : α → Action β} {b : β} :
    (p.bind f).EndsAsking inner c asked b c' ↔ ∃ a c₁ first rest, p.EndsAsking inner c first a c₁ ∧
      (f a).EndsAsking inner c₁ rest b c' ∧ asked = first ++ rest := by
  induction p generalizing c asked with
  | done value =>
    constructor
    · intro h
      exact ⟨value, c, [], asked, ⟨rfl, rfl, rfl⟩, h, rfl⟩
    · rintro ⟨a, c₁, first, rest, ⟨rfl, rfl, rfl⟩, h, rfl⟩
      exact h
  | ask q next ih =>
    constructor
    · rintro ⟨answer, c₁, rest, ha, rfl, h⟩
      obtain ⟨a, c₂, first, rest, hp, hf, rfl⟩ := (ih answer).mp h
      exact ⟨a, c₂, _, rest, ⟨answer, c₁, first, ha, rfl, hp⟩, hf, (List.append_assoc ..).symm⟩
    · rintro ⟨a, c₂, _, rest, ⟨answer, c₁, first, ha, rfl, hp⟩, hf, rfl⟩
      exact ⟨answer, c₁, first ++ rest, ha, List.append_assoc ..,
        (ih answer).mpr ⟨a, c₂, first, rest, hp, hf, rfl⟩⟩

theorem asking_ask {q : Query} {f : q.Answer → α} {a : α} :
    (Program.ask q fun answer => .done (f answer) : Action α).EndsAsking inner c asked a c' ↔
      ∃ answer, a = f answer ∧ asked = q.asked answer ∧ c.Answers inner q answer c' := by
  constructor
  · rintro ⟨answer, c₁, rest, ha, rfl, rfl, rfl, rfl⟩
    exact ⟨answer, rfl, List.append_nil _, ha⟩
  · rintro ⟨answer, rfl, rfl, ha⟩
    exact ⟨answer, c', [], ha, (List.append_nil _).symm, rfl, rfl, rfl⟩

theorem asking_map {p : Action α} {f : α → β} {b : β} :
    (p.bind fun a => .done (f a)).EndsAsking inner c asked b c' ↔
      ∃ a, p.EndsAsking inner c asked a c' ∧ b = f a := by
  rw [asking_bind]
  constructor
  · rintro ⟨a, _, first, _, h, ⟨rfl, rfl, rfl⟩, rfl⟩
    exact ⟨a, (List.append_nil first).symm ▸ h, rfl⟩
  · rintro ⟨a, h, rfl⟩
    exact ⟨a, c', asked, [], h, ⟨rfl, rfl, rfl⟩, (List.append_nil asked).symm⟩

theorem asking_withLock {lock : Lock} {body : Action α} {a : Except LockTimeout α} :
    (withLock lock body).EndsAsking inner c asked a c' ↔
      asked = [(lock, false)] ∧ a = .error .expired ∧ c' = c ∨
        lock ∉ c.held ∧ ∃ within b c₁, body.EndsAsking inner (c.lock lock) within b c₁ ∧
          asked = (lock, true) :: within ∧ a = .ok b ∧ c' = c₁.unlock lock := by
  unfold withLock
  simp only [Program.bind_eq, Program.pure_eq]
  rw [asking_bind]
  constructor
  · rintro ⟨had, c₁, _, rest, hl, h, rfl⟩
    obtain ⟨had, rfl, rfl, ha⟩ := asking_ask.mp hl
    rcases ha with ⟨rfl, hfree, rfl⟩ | ⟨rfl, rfl⟩
    · obtain ⟨b, c₂, within, _, hb, hafter, rfl⟩ := asking_bind.mp h
      obtain ⟨_, c₃, _, _, hr, ⟨rfl, rfl, rfl⟩, rfl⟩ := asking_bind.mp hafter
      obtain ⟨_, -, rfl, rfl⟩ := asking_ask.mp hr
      exact .inr ⟨hfree, within, b, c₂, hb, congrArg _ (List.append_nil within), rfl, rfl⟩
    · obtain ⟨rfl, rfl, rfl⟩ := h
      exact .inl ⟨rfl, rfl, rfl⟩
  · rintro (⟨rfl, rfl, rfl⟩ | ⟨hfree, within, b, c₁, hb, rfl, rfl, rfl⟩)
    · exact ⟨false, c', _, [], asking_ask.mpr ⟨false, rfl, rfl, .inr ⟨rfl, rfl⟩⟩, ⟨rfl, rfl, rfl⟩,
        rfl⟩
    · refine ⟨true, c.lock lock, _, within, asking_ask.mpr ⟨true, rfl, rfl, .inl ⟨rfl, hfree, rfl⟩⟩,
        ?_, rfl⟩
      refine asking_bind.mpr ⟨b, c₁, within, [], hb, ?_, (List.append_nil _).symm⟩
      exact asking_bind.mpr ⟨(), _, [], [], asking_ask.mpr ⟨(), rfl, rfl, rfl⟩, ⟨rfl, rfl, rfl⟩,
        rfl⟩

theorem asking_change {lock : Lock} {change : Station → Station} {a : Except LockTimeout Unit} :
    (withLock lock (modify change)).EndsAsking inner c asked a c' ↔
      asked = [(lock, false)] ∧ a = .error .expired ∧ c' = c ∨
        lock ∉ c.held ∧ asked = [(lock, true)] ∧ a = .ok () ∧ c' = c.access change := by
  rw [asking_withLock]
  refine or_congr_right (and_congr_right fun _ => ⟨?_, ?_⟩)
  · rintro ⟨_, _, c₁, hb, rfl, rfl, rfl⟩
    obtain ⟨_, -, rfl, -, rfl⟩ := asking_ask.mp hb
    exact ⟨rfl, rfl, unlock_access_lock c lock change⟩
  · rintro ⟨rfl, rfl, rfl⟩
    exact ⟨[], (), _, asking_ask.mpr ⟨_, rfl, rfl, rfl, rfl⟩, rfl, rfl,
      (unlock_access_lock c lock change).symm⟩

theorem asking_look {lock : Lock} {a : Except LockTimeout Station} :
    (withLock lock get).EndsAsking inner c asked a c' ↔
      asked = [(lock, false)] ∧ a = .error .expired ∧ c' = c ∨
        lock ∉ c.held ∧ asked = [(lock, true)] ∧ a = .ok c.station ∧ c' = c := by
  rw [asking_withLock]
  refine or_congr_right (and_congr_right fun _ => ⟨?_, ?_⟩)
  · rintro ⟨_, _, c₁, hb, rfl, rfl, rfl⟩
    obtain ⟨_, rfl, rfl, rfl, rfl⟩ := asking_ask.mp hb
    exact ⟨rfl, rfl, (unlock_access_lock c lock id).trans (access_id c)⟩
  · rintro ⟨rfl, rfl, rfl⟩
    refine ⟨[], c'.station, c'.lock lock, asking_ask.mpr ⟨c'.station, rfl, rfl, rfl, ?_⟩, rfl, rfl,
      ?_⟩
    · exact (access_id _).symm
    · exact (unlock_lock c' lock).symm

end Action
namespace Endpoint

def onReceiver (setter : Receiver → Receiver) : Endpoint → Endpoint
  | sender s => sender s
  | receiver r => receiver (setter r)

theorem setBlockSize_eq_onReceiver (value : UInt8) :
    (fun r : Endpoint => r.setBlockSize value) = onReceiver (·.setBlockSize value) := by
  funext r
  cases r <;> rfl

theorem setSeparation_eq_onReceiver (value : SeparationTime) :
    (fun r : Endpoint => r.setSeparation value) = onReceiver (·.setSeparation value) := by
  funext r
  cases r <;> rfl

theorem onReceiver_again {setter : Receiver → Receiver} (again : ∀ r, setter (setter r) = setter r)
    (r : Endpoint) :
    (r.onReceiver setter).onReceiver setter = r.onReceiver setter := by
  cases r with
  | sender s => rfl
  | receiver r => exact congrArg receiver (again r)

end Endpoint

/-- The locks that were had are free. -/
def Scene.Grants (c : Scene) (asked : List (Lock × Bool)) : Prop :=
  ∀ lock, (lock, true) ∈ asked → lock ∉ c.held

namespace Scene

theorem grants_nil (c : Scene) : c.Grants [] := nofun

theorem grants_missed (c : Scene) (lock : Lock) : c.Grants [(lock, false)] := by
  simp [Grants]

theorem grants_had {c : Scene} {lock : Lock} {asked : List (Lock × Bool)} :
    c.Grants ((lock, true) :: asked) ↔ lock ∉ c.held ∧ c.Grants asked := by
  simp [Grants]

end Scene

namespace Station
open Endpoint

/-- The station once the receivers of these conversations have been set. -/
def renew (s : Station) (setter : Receiver → Receiver) (reached : List Handle) : Station :=
  { s with endpoints := s.endpoints.map fun (id, r) =>
      (id, if id ∈ reached.map (·.id) then r.onReceiver setter else r) }

def had (handles : List Handle) : List (Lock × Bool) := handles.map fun h => (.endpoint h.id, true)

/-- How a setter may come through conversations. The receivers before the first lock that is not had
are set. -/
inductive Renewal (c : Scene) (setter : Receiver → Receiver) (handles : List Handle) :
    List (Lock × Bool) → Except LockTimeout Unit → Scene → Prop
  | complete : Renewal c setter handles (had handles) (.ok ())
      { c with station := c.station.renew setter handles }
  | broken {reached left : List Handle} {h : Handle} (order : handles = reached ++ h :: left) :
    Renewal c setter handles (had reached ++ [(.endpoint h.id, false)]) (.error .expired)
      { c with station := c.station.renew setter reached }

/-- Where a call of a setter may lead that stores `settings`, which locks it asks for on the way,
and how it answers. -/
inductive Attempt (c : Scene) (settings : Settings) (setter : Receiver → Receiver) :
    List (Lock × Bool) → Except LockTimeout Unit → Scene → Prop
  | denied : Attempt c settings setter [(.settings, false)] (.error .expired) c
  | stored {asked : List (Lock × Bool)}
      (stops : asked = [(.pending, false)] ∨ asked = [(.pending, true), (.conversations, false)]) :
    Attempt c settings setter ((.settings, true) :: asked) (.error .expired)
      { c with station := { c.station with settings } }
  | renewed {asked : List (Lock × Bool)} {a : Except LockTimeout Unit} {c' : Scene}
    (through : Renewal { c with station := { c.station with settings } } setter
      (c.station.pending ++ c.station.active.handles) asked a c') :
    Attempt c settings setter ((.settings, true) :: (.pending, true) :: (.conversations, true) ::
      asked) a c'

variable {inner : Scene → Scene → Prop} {c c' : Scene} {settings : Settings}
  {setter : Receiver → Receiver} {s : Station} {handles : List Handle} {asked : List (Lock × Bool)}
  {a : Except LockTimeout Unit}

theorem renew_nil (s : Station) (setter : Receiver → Receiver) : s.renew setter [] = s := by
  simp [renew]

/-- To reach one conversation and then others is to reach it and the others, in one of which it may
stand again. -/
theorem renew_modifyEndpoint (again : ∀ r, setter (setter r) = setter r) (s : Station) (h : Handle)
    (reached : List Handle) :
    (s.modifyEndpoint h.id (onReceiver setter)).renew setter reached =
      s.renew setter (h :: reached) := by
  unfold renew modifyEndpoint
  rw [List.map_map]
  refine congrArg (fun endpoints => { s with endpoints }) (List.map_congr_left fun p _ => ?_)
  obtain ⟨id, r⟩ := p
  by_cases hid : id = h.id
  · subst hid
    by_cases hmem : h.id ∈ reached.map (·.id) <;> simp [hmem, onReceiver_again again]
  · simp [hid]

theorem renewal_nil : Renewal c setter [] asked a c' ↔ asked = [] ∧ a = .ok () ∧ c' = c := by
  constructor
  · rintro (_ | ⟨order⟩)
    · exact ⟨rfl, rfl, by rw [renew_nil]⟩
    · simp at order
  · rintro ⟨rfl, rfl, rfl⟩
    have through : Renewal c' setter [] [] (.ok ())
        { c' with station := c'.station.renew setter [] } := .complete
    rwa [renew_nil] at through

theorem renewal_cons (again : ∀ r, setter (setter r) = setter r) {h : Handle} {rest : List Handle} :
    Renewal c setter (h :: rest) asked a c' ↔
      asked = [(.endpoint h.id, false)] ∧ a = .error .expired ∧ c' = c ∨
        ∃ more, asked = (.endpoint h.id, true) :: more ∧
          Renewal (c.access (·.modifyEndpoint h.id (onReceiver setter))) setter rest more a c' := by
  have hset : c.access (·.modifyEndpoint h.id (onReceiver setter)) =
      { c with station := c.station.modifyEndpoint h.id (onReceiver setter) } :=
      Scene.access_of_same rfl rfl
  rw [hset]
  constructor
  · rintro (_ | @⟨reached, left, g, order⟩)
    · refine .inr ⟨_, rfl, ?_⟩
      rw [← renew_modifyEndpoint again]
      exact .complete
    · cases reached with
      | nil =>
        obtain ⟨rfl, rfl⟩ := List.cons.inj order
        exact .inl ⟨rfl, rfl, by rw [renew_nil]⟩
      | cons _ reached =>
        obtain ⟨rfl, rfl⟩ := List.cons.inj order
        refine .inr ⟨_, rfl, ?_⟩
        rw [← renew_modifyEndpoint again]
        exact .broken rfl
  · rintro (⟨rfl, rfl, rfl⟩ | ⟨more, rfl, through⟩)
    · have stopped : Renewal c' setter (h :: rest) [(.endpoint h.id, false)] (.error .expired)
          { c' with station := c'.station.renew setter [] } :=
          .broken (List.nil_append (h :: rest)).symm
      rwa [renew_nil] at stopped
    · cases through with
      | complete =>
        rw [renew_modifyEndpoint again]
        exact .complete
      | @broken reached left g order =>
        rw [renew_modifyEndpoint again]
        have hmore : h :: rest = (h :: reached) ++ g :: left := congrArg _ order
        exact .broken hmore

theorem changeEach_asking (again : ∀ r, setter (setter r) = setter r) :
    (changeEach (onReceiver setter) handles).EndsAsking inner c asked a c' ↔
      c.Grants asked ∧ Renewal c setter handles asked a c' := by
  induction handles generalizing c asked with
  | nil =>
    rw [renewal_nil]
    exact ⟨fun ⟨hasked, ha, hc⟩ => ⟨hasked ▸ c.grants_nil, hasked, ha, hc⟩, And.right⟩
  | cons h rest ih =>
    rw [changeEach, Program.bind_eq, asking_bind, renewal_cons again]
    constructor
    · rintro ⟨changed, c₁, _, more, hchange, hrest, rfl⟩
      rcases asking_change.mp hchange with ⟨rfl, rfl, rfl⟩ | ⟨free, rfl, rfl, rfl⟩
      · obtain ⟨rfl, rfl, rfl⟩ := hrest
        exact ⟨c'.grants_missed _, .inl ⟨rfl, rfl, rfl⟩⟩
      · obtain ⟨grants, through⟩ := ih.mp hrest
        exact ⟨Scene.grants_had.mpr ⟨free, grants⟩, .inr ⟨more, rfl, through⟩⟩
    · rintro ⟨grants, ⟨rfl, rfl, rfl⟩ | ⟨more, rfl, through⟩⟩
      · exact ⟨_, c', _, [], asking_change.mpr (.inl ⟨rfl, rfl, rfl⟩), ⟨rfl, rfl, rfl⟩, rfl⟩
      · obtain ⟨free, grants⟩ := Scene.grants_had.mp grants
        exact ⟨_, _, _, more, asking_change.mpr (.inr ⟨free, rfl, rfl, rfl⟩),
          ih.mpr ⟨grants, through⟩, rfl⟩

theorem changeAll_asking (again : ∀ r, setter (setter r) = setter r) :
    (changeAll (onReceiver setter)).EndsAsking inner c asked a c' ↔ c.Grants asked ∧
      ((asked = [(.pending, false)] ∨ asked = [(.pending, true), (.conversations, false)]) ∧
          a = .error .expired ∧ c' = c ∨
        ∃ more, asked = (.pending, true) :: (.conversations, true) :: more ∧
          Renewal c setter (c.station.pending ++ c.station.active.handles) more a c') := by
  rw [changeAll, Program.bind_eq, asking_bind]
  constructor
  · rintro ⟨waiting, c₁, _, rest, hwaiting, hrest, rfl⟩
    rcases asking_look.mp hwaiting with ⟨rfl, rfl, rfl⟩ | ⟨queue, rfl, rfl, rfl⟩
    · obtain ⟨rfl, rfl, rfl⟩ := hrest
      exact ⟨c'.grants_missed _, .inl ⟨.inl rfl, rfl, rfl⟩⟩
    obtain ⟨running, c₂, _, more, hrunning, heach, rfl⟩ := asking_bind.mp hrest
    rcases asking_look.mp hrunning with ⟨rfl, rfl, rfl⟩ | ⟨free, rfl, rfl, rfl⟩
    · obtain ⟨rfl, rfl, rfl⟩ := heach
      exact ⟨Scene.grants_had.mpr ⟨queue, c'.grants_missed _⟩, .inl ⟨.inr rfl, rfl, rfl⟩⟩
    · obtain ⟨grants, through⟩ := (changeEach_asking again).mp heach
      exact ⟨Scene.grants_had.mpr ⟨queue, Scene.grants_had.mpr ⟨free, grants⟩⟩,
        .inr ⟨more, rfl, through⟩⟩
  · rintro ⟨grants, ⟨rfl | rfl, rfl, rfl⟩ | ⟨more, rfl, through⟩⟩
    · exact ⟨_, c', _, [], asking_look.mpr (.inl ⟨rfl, rfl, rfl⟩), ⟨rfl, rfl, rfl⟩, rfl⟩
    · obtain ⟨queue, -⟩ := Scene.grants_had.mp grants
      refine ⟨_, c', _, _, asking_look.mpr (.inr ⟨queue, rfl, rfl, rfl⟩), ?_, rfl⟩
      exact asking_bind.mpr ⟨_, c', _, [], asking_look.mpr (.inl ⟨rfl, rfl, rfl⟩), ⟨rfl, rfl, rfl⟩,
        rfl⟩
    · obtain ⟨queue, grants⟩ := Scene.grants_had.mp grants
      obtain ⟨free, grants⟩ := Scene.grants_had.mp grants
      refine ⟨_, c, _, _, asking_look.mpr (.inr ⟨queue, rfl, rfl, rfl⟩), ?_, rfl⟩
      refine asking_bind.mpr ⟨_, c, _, more, asking_look.mpr (.inr ⟨free, rfl, rfl, rfl⟩), ?_, rfl⟩
      exact (changeEach_asking again).mpr ⟨grants, through⟩

/-- Both setters store a value and go through the conversations. -/
def applySetting (store : Settings → Settings) (change : Endpoint → Endpoint) :
    Action (Except LockTimeout Unit) := do
  match ← changeSettings store with
  | .error e => return .error e
  | .ok _ => changeAll change

theorem setBlockSize_eq (value : UInt8) : setBlockSize value =
    applySetting (fun s => { s with blockSize := value }) (onReceiver (·.setBlockSize value)) := by
  rw [← setBlockSize_eq_onReceiver]
  rfl

theorem setSeparation_eq {value : SeparationTime} (valid : value.isValid = true) :
    setSeparation value =
      (applySetting (fun s => { s with separation := value })
        (onReceiver (·.setSeparation value))).bind fun b =>
      .done (b.mapError .lock) := by
  unfold setSeparation SeparationTime.validate applySetting
  rw [if_pos valid, ← setSeparation_eq_onReceiver]
  simp only [Program.bind_eq, Program.pure_eq, Program.bind_assoc]
  congr 1
  funext stored
  cases stored with
  | error e => rfl
  | ok =>
    dsimp only
    congr 1
    funext changed
    cases changed <;> rfl

theorem applySetting_asking (again : ∀ r, setter (setter r) = setter r)
    {store : Settings → Settings} :
    (applySetting store (onReceiver setter)).EndsAsking inner c asked a c' ↔
      c.Grants asked ∧ Attempt c (store c.station.settings) setter asked a c' := by
  have hstored : (c.access fun s => { s with settings := store s.settings }) =
      { c with station := { c.station with settings := store c.station.settings } } :=
      Scene.access_of_same rfl rfl
  rw [applySetting, Program.bind_eq, asking_bind]
  constructor
  · rintro ⟨stored, c₁, _, rest, hstore, hrest, rfl⟩
    rcases asking_change.mp hstore with ⟨rfl, rfl, rfl⟩ | ⟨free, rfl, rfl, rfl⟩
    · obtain ⟨rfl, rfl, rfl⟩ := hrest
      exact ⟨c'.grants_missed _, .denied⟩
    rw [hstored] at hrest
    obtain ⟨grants, ⟨stops, rfl, rfl⟩ | ⟨more, rfl, through⟩⟩ := (changeAll_asking again).mp hrest
    · exact ⟨Scene.grants_had.mpr ⟨free, grants⟩, .stored stops⟩
    · exact ⟨Scene.grants_had.mpr ⟨free, grants⟩, .renewed through⟩
  · rintro ⟨grants, attempt⟩
    cases attempt with
    | denied => exact ⟨_, c, _, [], asking_change.mpr (.inl ⟨rfl, rfl, rfl⟩), ⟨rfl, rfl, rfl⟩, rfl⟩
    | stored stops =>
      obtain ⟨free, grants⟩ := Scene.grants_had.mp grants
      refine ⟨_, _, _, _, asking_change.mpr (.inr ⟨free, rfl, rfl, rfl⟩), ?_, rfl⟩
      exact hstored ▸ (changeAll_asking again).mpr ⟨grants, .inl ⟨stops, rfl, rfl⟩⟩
    | renewed through =>
      obtain ⟨free, grants⟩ := Scene.grants_had.mp grants
      refine ⟨_, _, _, _, asking_change.mpr (.inr ⟨free, rfl, rfl, rfl⟩), ?_, rfl⟩
      exact hstored ▸ (changeAll_asking again).mpr ⟨grants, .inr ⟨_, rfl, through⟩⟩

/-- Whatever locks are had, a setter asks for them one after the other and stops at the first that
is not had. It is turned down and leaves all as it was, or it stores its value in the settings and
in the receivers up to the one whose lock was not had; in all of them if it succeeds. A separation
time that cannot be asked for is turned down at once. -/
theorem setters_attempt (inner : Scene → Scene → Prop) (c c' : Scene) :
    (∀ value asked a, (setBlockSize value).EndsAsking inner c asked a c' ↔ c.Grants asked ∧
      Attempt c { c.station.settings with blockSize := value } (·.setBlockSize value) asked a c') ∧
    ∀ value asked a, (setSeparation value).EndsAsking inner c asked a c' ↔
      (value.isValid = false ∧ asked = [] ∧ a = .error (.invalidSeparation value) ∧ c' = c) ∨
      (value.isValid = true ∧ ∃ b, a = b.mapError .lock ∧ c.Grants asked ∧
        Attempt c { c.station.settings with separation := value }
          (·.setSeparation value) asked b c') := by
  refine ⟨fun value asked a => ?_, fun value asked a => ?_⟩
  · have again (r : Receiver) : (r.setBlockSize value).setBlockSize value = r.setBlockSize value :=
      rfl
    rw [setBlockSize_eq]
    exact applySetting_asking again
  · cases hvalid : value.isValid with
    | false =>
      have hrefused : setSeparation value = .done (.error (.invalidSeparation value)) := by
        unfold setSeparation SeparationTime.validate
        rw [if_neg (by simp [hvalid])]
        rfl
      rw [hrefused]
      simp [Program.EndsAsking]
    | true =>
      have again (r : Receiver) : (r.setSeparation value).setSeparation value =
          r.setSeparation value := rfl
      rw [setSeparation_eq hvalid, asking_map]
      simp only [Bool.true_eq_false, false_and, false_or, true_and]
      exact exists_congr fun b =>
        and_comm.trans (and_congr_right fun _ => applySetting_asking again)

def awaited (id : EndpointId) (address : Address) : EndpointId × Endpoint :=
  (id, .receiver
    { address, blockSize := 0, separation := .zero, sentBlockSize := 0, sentSeparation := .zero })

def awaitedBy (id : EndpointId) (address : Address) : Address × Handle :=
  (address, ⟨id, address, .receiver, .diagnostics⟩)

def occupied : Scene where
  station :=
    { settings := { source := 0xF1 }
      budget := ⟨1000⟩
      endpoints := [awaited 0 (.physical 0xF1 0x10), awaited 1 (.physical 0xF1 0x11)]
      fresh := 2
      active := [awaitedBy 0 (.physical 0xF1 0x10), awaitedBy 1 (.physical 0xF1 0x11)] }
  held := [.endpoint 1]

def occupiedAsked : Except LockTimeout Unit × Scene := (setBlockSize 8).run Scene.oblige occupied

/-- Four locks are had; that of the second reception is not. -/
theorem setters_attempt_occupied :
    (setBlockSize 8).EndsAsking (Episode 0) occupied
        [(.settings, true), (.pending, true), (.conversations, true), (.endpoint 0, true),
          (.endpoint 1, false)]
        (.error .expired) occupiedAsked.2 ∧
      (setBlockSize 8).Ends (Episode 0) occupied (.error .expired) occupiedAsked.2 := by
  have order : occupied.station.pending ++ occupied.station.active.handles =
      [(awaitedBy 0 (.physical 0xF1 0x10)).2] ++ (awaitedBy 1 (.physical 0xF1 0x11)).2 :: [] := rfl
  have grants :
      occupied.Grants
      [(.settings, true), (.pending, true), (.conversations, true), (.endpoint 0, true),
        (.endpoint 1, false)] := by
    simp [Scene.Grants, occupied]
  have asking :=
    ((setters_attempt (Episode 0) occupied occupiedAsked.2).1 8 _ (.error .expired)).mpr
      ⟨grants, .renewed (.broken order)⟩
  exact ⟨asking, ends_iff_asking.mpr ⟨_, asking⟩⟩

/-- A setter that fails may have changed the settings, and one reception but not the next. -/
theorem setters_not_atomic :
    (¬∀ (c c' : Scene) (value : UInt8), (setBlockSize value).Ends (Episode 0)
      c (.error .expired) c' → c'.station.settings = c.station.settings ∧
      c'.station.endpoints = c.station.endpoints) ∧ occupiedAsked.2.station.settings.blockSize = 8 ∧
      occupiedAsked.2.station.endpoints.map (fun p => match p.2 with
        | .receiver r => r.blockSize
        | .sender _ => 0) = [8, 0] := by
  have kept : occupiedAsked.2.station.settings.blockSize = 8 := by decide
  refine ⟨fun h => ?_, kept, by decide⟩
  have ends : (setBlockSize 8).Ends (Episode 0) occupied (.error .expired) occupiedAsked.2 :=
    ends_run answers_oblige _ _
  rw [(h occupied occupiedAsked.2 8 ends).1] at kept
  exact absurd kept (by decide)

end Station
end CanTransport
