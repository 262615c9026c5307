import CanTransport.Proofs.Delivery

/-! # All requests get through

Requests made at one station of two before the first tick are served one after the other, and leave
both stations as they were.
-/
namespace CanTransport.Bench
open Station

abbrev Request := List UInt8 × MessageType

def needed (requests : List Request) : Nat :=
      requests.foldr (fun m held => m.1.length + labelBytes + held) 0

theorem needed_cons (message : List UInt8) (kind : MessageType) (rest : List Request) :
    needed ((message, kind) :: rest) = message.length + labelBytes + needed rest := rfl

def queued (address : Address) (waitLimit : Option UInt8) :
    EndpointId → List Request → List (EndpointId × Endpoint)
  | _, [] => []
  | first, (message, kind) :: rest =>
    (first, .sender (.initial address message kind waitLimit)) ::
      queued address waitLimit (first + 1) rest

section Queue
variable {address : Address} {waitLimit : Option UInt8} {first : EndpointId}
  {requests : List Request}

theorem lt_of_mem_queued {p : EndpointId × Endpoint}
    (h : p ∈ queued address waitLimit first requests) :
    first ≤ p.1 ∧ p.2.address = address := by
  induction requests generalizing first with
  | nil => cases h
  | cons request rest ih =>
    rcases List.mem_cons.mp h with rfl | h
    · exact ⟨Nat.le_refl _, rfl⟩
    · exact ⟨Nat.le_of_succ_le (ih h).1, (ih h).2⟩

theorem footprints_queued :
    footprints (queued address waitLimit first requests) = needed requests := by
  induction requests generalizing first with
  | nil => rfl
  | cons request rest ih =>
    rw [queued, footprints_cons, ih]
    rfl

theorem behind_queued {home : Station} (hroom : needed requests ≤ home.budget.remaining)
    (hcapped : home.budget.remaining ≤ Budget.top) :
    Behind home address first (queued address waitLimit (first + 1) requests) where
  fresh h := by
    obtain ⟨p, hp, rfl⟩ := List.mem_map.mp h
    exact Nat.not_succ_le_self _ (lt_of_mem_queued hp).1
  same p hp := (lt_of_mem_queued hp).2
  room := footprints_queued ▸ hroom
  capped := hcapped

end Queue

variable {a b : Station}

theorem Talk.all_get_through {t : Talk} {requests : List Request} {waitLimit : Option UInt8}
    {first : EndpointId} {na nb : List Notice}
    (h : Stage a b none (queued (route a b) waitLimit first requests) [] na none nb t)
    (hb : Terms a b) (hl : ∀ m ∈ requests, m.1.length < Pdu.lengthLimit)
    (hroom : needed requests ≤ a.budget.remaining)
    (hroom' : ∀ m ∈ requests, (m.1.length + labelBytes : Nat) ≤ b.budget.remaining) :
    Inevitable a b
      (Stage a b none [] [] (na ++ requests.map fun m => .confirm (route a b) (.ok ()) m.2)
        none (nb ++ requests.flatMap fun m => indications (route a b) m.1)) t := by
  induction requests generalizing first na nb t with
  | nil =>
    refine .now ?_
    simpa [queued] using h
  | cons request rest ih =>
    obtain ⟨message, kind⟩ := request
    rw [needed_cons] at hroom
    have hrest : needed rest ≤ a.budget.remaining := by omega
    have hfirst := gets_through h (hl _ List.mem_cons_self) (hroom' _ List.mem_cons_self)
        (behind_queued hrest hb.callerCapped) hb
    apply hfirst.trans
    intro t ht
    have hothers := ih ht (fun m hm => hl m (List.mem_cons_of_mem _ hm)) hrest fun m hm =>
        hroom' m (List.mem_cons_of_mem _ hm)
    simpa using hothers

namespace NodeView
variable {base : Station} {queue : List (EndpointId × Endpoint)} {notices : List Notice}
  {clock : Micros} {target : UInt8} {message : List UInt8} {kind : MessageType}

def newcomer (base : Station) (address : Address) (message : List UInt8) (kind : MessageType) :
    EndpointId × Endpoint :=
  (base.fresh, .sender (.initial address message kind base.waitLimit))

theorem footprints_newcomer {address : Address} :
    footprints (queue ++ [newcomer base address message kind]) =
    footprints queue + (message.length + labelBytes) :=
  footprints_append _ _

theorem addSender_hosting {address : Address} (kind : MessageType)
    (hf : address.isFunctional = false) (hl : message.length < Pdu.lengthLimit)
    (hroom : (footprints queue + (message.length + labelBytes) : Nat) ≤ base.budget.remaining)
    (hcapped : base.budget.remaining ≤ Budget.top) :
    ∃ s, (base.hosting none false queue).addSender address message kind base.waitLimit =
        (.ok ((newcomer base address message kind).2.handle base.fresh), s) ∧
      s.enqueue ((newcomer base address message kind).2.handle base.fresh) =
        base.adopted.hosting none false (queue ++ [newcomer base address message kind]) := by
  have hbudget : (base.hosting none false queue).budget =
      ⟨base.budget.remaining - footprints queue⟩ := rfl
  have hcreate : Sender.create address message kind base.waitLimit
      (base.hosting none false queue).budget = _ :=
    Sender.create_eq hf hl (by rw [hbudget]; dsimp only; omega) (by rw [hbudget]; dsimp only; omega)
  have hsum : base.budget.remaining - footprints queue -
      ((message.length + labelBytes : Nat) : Int) =
      base.budget.remaining - footprints (queue ++ [newcomer base address message kind]) := by
    rw [footprints_newcomer]
    omega
  refine ⟨((base.hosting none false queue).adopt
    (.sender (.initial address message kind base.waitLimit))
    ⟨(base.hosting none false queue).budget.remaining - (message.length + labelBytes : Nat)⟩).2, ?_,
    ?_⟩
  · rw [addSender, hcreate]
    rfl
  · simp only [adopt, enqueue, hbudget, hsum]
    simp [Station.hosting, adopted, newcomer]

/-- A request that the budget holds is queued behind the others. -/
theorem request_accepted (kind : MessageType) (hl : message.length < Pdu.lengthLimit)
    (hroom : (footprints queue + (message.length + labelBytes) : Nat) ≤ base.budget.remaining)
    (hcapped : base.budget.remaining ≤ Budget.top) :
    (request target .physical message kind).run NodeRun.answer
      ⟨hosting base none false queue [] notices, clock, []⟩ =
      (.ok base.fresh, ⟨hosting base.adopted none false
        (queue ++ [newcomer base (.physical target base.settings.source) message kind])
        [] notices, clock, []⟩) := by
  have hfunctional := Address.isFunctional_physical target base.settings.source
  obtain ⟨s, hadd, hqueue⟩ := addSender_hosting kind hfunctional hl hroom hcapped
  have hadd' : (hosting base none false queue [] notices).station.addSender
      (.ofParts .physical target (hosting base none false queue [] notices).station.settings.source)
      message kind (hosting base none false queue [] notices).station.waitLimit = _ := hadd
  have hside : (hosting base.adopted none false
      (queue ++ [newcomer base (.physical target base.settings.source) message kind]) [] notices) =
      { station := s.enqueue ((newcomer base (.physical target base.settings.source) message kind).2.handle base.fresh)
        notices } := by
    rw [hqueue]
    rfl
  simp only [request, Program.bind_eq, Program.run_bind, NodeRun.run_withLock, NodeRun.run_get,
    NodeRun.run_modifyGet, hadd', NodeRun.run_modify, Program.pure_eq, Program.run_done, hside]
  rfl

theorem request_refused (kind : MessageType) (hl : Pdu.lengthLimit ≤ message.length) :
    (request target .physical message kind).run NodeRun.answer
      ⟨hosting base none false queue [] notices, clock, []⟩ =
      (.error (.messageTooLong message.length),
        ⟨hosting base none false queue [] notices, clock, []⟩) := by
  have hfunctional := Address.isFunctional_physical target base.settings.source
  have hadd : (hosting base none false queue [] notices).station.addSender
      (.ofParts .physical target (hosting base none false queue [] notices).station.settings.source)
      message kind (hosting base none false queue [] notices).station.waitLimit =
      (.error (.messageTooLong message.length), base.hosting none false queue) := by
    change (base.hosting none false queue).addSender (.physical target base.settings.source)
      message kind base.waitLimit = _
    rw [addSender, Sender.create, if_neg (by simp [hfunctional]), if_pos hl]
  simp only [request, Program.bind_eq, Program.run_bind, NodeRun.run_withLock, NodeRun.run_get,
    NodeRun.run_modifyGet, hadd, Program.pure_eq, Program.run_done]
  rfl

end NodeView

/-- Requests that a first frame can announce; the others are refused. -/
def accepted (requests : List Request) : List Request :=
  requests.filter fun m => m.1.length < Pdu.lengthLimit

namespace Bus

def joining (start : Micros) (a b : Station) : Bus :=
  { clock := start, nodes := [{ station := a }, { station := b }] }

def requestAll (target : UInt8) (requests : List Request) (b : Bus) : Bus :=
  requests.foldl (fun b m => (b.call 0 (.request target .physical m.1 m.2)).2) b

def paced (spans : Nat → Micros) (b : Bus) : Nat → Bus
  | 0 => b
  | n + 1 => (b.paced spans n).round [0, 1] (spans n)

variable {bus : Bus} {clock : Micros} {base : Station} {queue : List (EndpointId × Endpoint)}
  {y : NodeView} {target : UInt8} {requests : List Request} {notices : List Notice}

theorem Shows.requestAt {i : Nat} {view : Nat → NodeView} {x : NodeView} {message : List UInt8}
    {kind : MessageType} {reply : Except RequestError EndpointId}
    (h : bus.Shows clock (fun _ => []) view) (hi : i < bus.nodes.length)
    (hr : (Station.request target .physical message kind).run NodeRun.answer ⟨view i, clock, []⟩ =
      (reply, ⟨x, clock, []⟩)) :
    (bus.call i (.request target .physical message kind)).2.Shows clock (fun _ => [])
        (fun j => if j = i then x else view j) ∧
      (bus.call i (.request target .physical message kind)).2.nodes.length = bus.nodes.length := by
  have hcall : (bus.call i (.request target .physical message kind)).2 =
      (bus.run i (Station.request target .physical message kind)).2 := rfl
  obtain ⟨hs, hlength⟩ := h.runAt hi (Station.request_disciplined target .physical message kind)
  have hx : (view i).run (Station.request target .physical message kind) clock = (x, []) :=
    NodeView.run_eq (congrArg Prod.snd hr)
  rw [hx] at hs
  rw [hcall]
  refine ⟨hs.congr fun j _ => ?_, hlength⟩
  by_cases hj : j = i
  · simp only [around, if_pos hj]
  · simp only [around, if_neg hj, List.append_nil]

theorem Shows.request {x : NodeView} {message : List UInt8} {kind : MessageType}
    {reply : Except RequestError EndpointId}
    (h : bus.Shows clock (fun _ => []) (pair (.hosting base none false queue [] notices) y))
    (hn : bus.nodes.length = 2)
    (hr : (Station.request target .physical message kind).run NodeRun.answer
      ⟨.hosting base none false queue [] notices, clock, []⟩ = (reply, ⟨x, clock, []⟩)) :
    (bus.call 0 (.request target .physical message kind)).2.Shows clock (fun _ => []) (pair x y) ∧
      (bus.call 0 (.request target .physical message kind)).2.nodes.length = 2 := by
  obtain ⟨hs, hlength⟩ := h.requestAt (i := 0) (by omega) hr
  refine ⟨hs.congr fun i _ => ?_, hlength.trans hn⟩
  by_cases hi : i = 0
  · simp only [pair, if_pos hi]
  · simp only [pair, if_neg hi]

theorem Shows.requestAll (target : UInt8) (requests : List Request)
    (h : bus.Shows clock (fun _ => []) (pair (.hosting base none false queue [] notices) y))
    (hn : bus.nodes.length = 2)
    (hroom : (footprints queue + needed (accepted requests) : Nat) ≤
      base.budget.remaining)
    (hcapped : base.budget.remaining ≤ Budget.top) :
    ∃ base', (bus.requestAll target requests).Shows clock (fun _ => [])
      (pair (.hosting base' none false
        (queue ++ queued (.physical target base.settings.source) base.waitLimit base.fresh
          (accepted requests)) [] notices) y) ∧
      (bus.requestAll target requests).nodes.length = 2 ∧ base'.settings = base.settings ∧
      base'.budget = base.budget ∧ base'.runPeriod = base.runPeriod ∧
      base'.lastTick = base.lastTick := by
  induction requests generalizing bus base queue with
  | nil =>
    refine ⟨base, ?_, hn, rfl, rfl, rfl, rfl⟩
    simpa [accepted, queued, Bus.requestAll] using h
  | cons request rest ih =>
    obtain ⟨message, kind⟩ := request
    by_cases hl : message.length < Pdu.lengthLimit
    · have ha : accepted ((message, kind) :: rest) = (message, kind) :: accepted rest :=
        List.filter_cons_of_pos (by simpa using hl)
      rw [ha, needed_cons] at hroom
      obtain ⟨h', hn'⟩ := h.request hn (NodeView.request_accepted kind hl (by omega) hcapped)
      have hroom' :
          (footprints
            (queue ++ [NodeView.newcomer base (.physical target base.settings.source) message kind])
            +
          needed (accepted rest) : Nat) ≤
          base.adopted.budget.remaining := by
        rw [NodeView.footprints_newcomer, Nat.add_assoc]
        exact hroom
      obtain ⟨base', hs, hlength, hsettings, hbudget, hperiod, hlast⟩ := ih h' hn' hroom' hcapped
      refine ⟨base', ?_, hlength, hsettings, hbudget, hperiod, hlast⟩
      rw [ha]
      simpa [queued, NodeView.newcomer, adopted, Bus.requestAll] using hs
    · have ha : accepted ((message, kind) :: rest) = accepted rest :=
        List.filter_cons_of_neg (by simpa using hl)
      obtain ⟨h', hn'⟩ := h.request hn (NodeView.request_refused kind (Nat.le_of_not_lt hl))
      rw [ha] at hroom ⊢
      exact ih h' hn' hroom hcapped

end Bus

/-- What is to be seen once all messages are through. -/
structure Served (a b : Station) (messages : List Request) (bus : Bus) : Prop where
  confirmed : bus.noticesAt 0 = messages.map fun m => .confirm (route a b) (.ok ()) m.2
  indicated : bus.noticesAt 1 = messages.flatMap fun m => Talk.indications (route a b) m.1
  quiet : (bus.node 0).station.isQuiet = true ∧ (bus.node 1).station.isQuiet = true
  budget : (bus.node 0).station.budget = a.budget ∧ (bus.node 1).station.budget = b.budget

namespace Talk
variable {t : Talk} {na nb : List Notice}

/-- Once everything is served, nothing happens any more. -/
theorem Stage.stays {span : Micros} (h : Stage a b none [] [] na none nb t) (hp : Pace a b span) :
    Stage a b none [] [] na none nb (t.round span) :=
  stage_round (h.caller.idle hp.caller) ((h.callee.deliver []).idle hp.callee)

/-- The course of two stations, round by round. -/
def course (spans : Nat → Micros) (t : Talk) : Nat → Talk
  | 0 => t
  | n + 1 => (course spans t n).round (spans n)

theorem Stage.lasts {spans : Nat → Micros} {n : Nat}
    (h : Stage a b none [] [] na none nb (t.course spans n)) (hs : ∀ n, Pace a b (spans n))
    (k : Nat) : Stage a b none [] [] na none nb (t.course spans (n + k)) := by
  induction k with
  | zero => exact h
  | succ k ih => exact ih.stays (hs _)

theorem shows_course {bus : Bus} (spans : Nat → Micros)
    (h : bus.Shows t.clock (fun _ => []) (pair t.caller t.callee)) (hn : bus.nodes.length = 2)
    (n : Nat) :
    (bus.paced spans n).Shows (t.course spans n).clock (fun _ => [])
        (pair (t.course spans n).caller (t.course spans n).callee) ∧
        (bus.paced spans n).nodes.length = 2 := by
  induction n with
  | zero => exact ⟨h, hn⟩
  | succ n ih => exact ih.1.round ih.2

theorem served {bus : Bus} {messages : List Request} (h : Stage a b none [] []
      (messages.map fun m => .confirm (route a b) (.ok ()) m.2) none
      (messages.flatMap fun m => indications (route a b) m.1) t)
    (hs : bus.Shows t.clock (fun _ => []) (pair t.caller t.callee)) (hn : bus.nodes.length = 2) :
    Served a b messages bus := by
  obtain ⟨base, ha, hcaller⟩ := h.caller
  obtain ⟨base', hb, hcallee⟩ := h.callee
  have h₀ := hs.node 0 (by omega)
  have h₁ := hs.node 1 (by omega)
  have hs₀ : (bus.node 0).station = base.hosting none false [] := by
    rw [h₀.station, pair, if_pos rfl, hcaller, NodeView.hosting]
  have hs₁ : (bus.node 1).station = base'.hosting none false [] := by
    rw [h₁.station, pair, if_neg (by decide), hcallee, NodeView.hosting]
  refine ⟨?_, ?_, ?_, ?_⟩
  · rw [hs.notices 0 (by omega), pair, if_pos rfl, hcaller, NodeView.hosting]
  · rw [hs.notices 1 (by omega), pair, if_neg (by decide), hcallee, NodeView.hosting]
  · rw [hs₀, hs₁]
    exact ⟨rfl, rfl⟩
  · rw [hs₀, hs₁, ← ha.budget, ← hb.budget]
    simp [hosting]

end Talk

variable {ca cb : Config}

theorem terms_of_config (ha : Station.ofConfig ca = .ok a) (hb : Station.ofConfig cb = .ok b) :
    Terms a b := by
  obtain ⟨-, rfl⟩ := ofConfig_eq ha
  obtain ⟨hvalid, rfl⟩ := ofConfig_eq hb
  refine ⟨hvalid, ?_, ?_, ?_⟩
  · exact Int.min_le_right _ _
  · exact Int.min_le_right _ _
  · exact Int.le_min.mpr ⟨Int.natCast_nonneg _, by decide⟩

theorem hosting_of_config {c : Config} {s : Station} (h : Station.ofConfig c = .ok s) :
    s.hosting none false [] = s ∧ ∀ clock, Stands s clock s := by
  obtain ⟨-, rfl⟩ := ofConfig_eq h
  exact ⟨by simp [hosting], fun clock => ⟨rfl, rfl, rfl, nofun⟩⟩

theorem shows_joining (ha : Station.ofConfig ca = .ok a) (hb : Station.ofConfig cb = .ok b)
    (start : Micros) :
    (Bus.joining start a b).Shows start (fun _ => [])
      (pair (.hosting a none false [] [] []) (.hosting b none false [] [] [])) := by
  refine ⟨rfl, rfl, fun i hi => ?_, fun i hi => ?_⟩
  · match i, hi with
    | 0, _ =>
      exact ⟨⟨rfl, rfl, rfl, rfl, rfl, rfl⟩, rfl, rfl, (hosting_of_config ha).1.symm, rfl, rfl⟩
    | 1, _ =>
      exact ⟨⟨rfl, rfl, rfl, rfl, rfl, rfl⟩, rfl, rfl, (hosting_of_config hb).1.symm, rfl, rfl⟩
  · match i, hi with
    | 0, _ => rfl
    | 1, _ => rfl

theorem opening (ha : Station.ofConfig ca = .ok a) (hb : Station.ofConfig cb = .ok b)
    (start : Micros) (requests : List Request)
    (hroom : needed (accepted requests) ≤ a.budget.remaining) :
    ∃ t : Talk, ((Bus.joining start a b).requestAll b.settings.source requests).Shows t.clock
      (fun _ => [])
        (pair t.caller t.callee) ∧
      ((Bus.joining start a b).requestAll b.settings.source requests).nodes.length = 2 ∧
      t.Stage a b none (queued (route a b) a.waitLimit a.fresh (accepted requests)) []
        [] none [] := by
  obtain ⟨base, hshows, hlength, hsettings, hbudget, hperiod, hlast⟩ :=
    (shows_joining ha hb start).requestAll b.settings.source requests rfl (by simpa using hroom)
      (terms_of_config ha hb).callerCapped
  have hrested : base.Rested start := by
    intro last hl
    rw [hperiod]
    exact ((hosting_of_config ha).2 start).rested last (hlast ▸ hl)
  exact ⟨⟨start, _, _⟩, hshows, hlength, ⟨base, ⟨hsettings, hbudget, hperiod, hrested⟩, rfl⟩,
    ⟨b, (hosting_of_config hb).2 start, rfl⟩⟩

/-- Whatever messages are requested and however the rounds are paced, all of them get through: each
is confirmed and indicated with success, in the order of the requests, and both stations are left as
they were. -/
theorem all_served (ha : Station.ofConfig ca = .ok a) (hb : Station.ofConfig cb = .ok b)
    (start : Micros) (requests : List Request)
    (hroom : needed (accepted requests) ≤ a.budget.remaining)
    (hroom' : ∀ m ∈ accepted requests, (m.1.length + labelBytes : Nat) ≤ b.budget.remaining)
    (spans : Nat → Micros) (hs : ∀ n, Pace a b (spans n)) :
    ∃ rounds, ∀ n, rounds ≤ n → Served a b (accepted requests)
      (((Bus.joining start a b).requestAll b.settings.source requests).paced spans n) := by
  have hterms := terms_of_config ha hb
  have hshort : ∀ m ∈ accepted requests, m.1.length < Pdu.lengthLimit := by
    intro m hm
    simpa using (List.mem_filter.mp hm).2
  obtain ⟨t, hshows, hlength, hstage⟩ := opening ha hb start requests hroom
  have hinevitable := Talk.all_get_through hstage hterms hshort hroom hroom'
  obtain ⟨rounds, -, hreached⟩ := hinevitable.reached (t.course spans) spans 0 rfl hs fun _ => rfl
  refine ⟨rounds, fun n hn => ?_⟩
  obtain ⟨k, rfl⟩ := Nat.exists_eq_add_of_le hn
  obtain ⟨hbus, hlength⟩ := Talk.shows_course spans hshows hlength (rounds + k)
  exact Talk.served (hreached.lasts hs k) hbus hlength

def tester : Station := { settings := { source := 0xF1 }, budget := ⟨10 * 1024⟩ }

def unit : Station :=
  { settings := { source := 0x10, blockSize := 2, separation := ⟨5, .millis⟩ }, budget := ⟨10 * 1024⟩ }

def threeRequests : List Request :=
  [([1, 2, 3], .diagnostics), ((List.range 70).map UInt8.ofNat, .diagnostics), ([], .unknown)]

theorem all_served_threeRequests : ∃ rounds, ∀ n, rounds ≤ n → Served tester unit threeRequests
    (((Bus.joining 0 tester unit).requestAll 0x10 threeRequests).paced (fun _ => 100 * 1000)
      n) := by
  have hc : Station.ofConfig { source := 0xF1, memoryBudget := 10 * 1024 } = .ok tester := rfl
  have hu : Station.ofConfig
      { source := 0x10, blockSize := 2, separation := ⟨5, .millis⟩, memoryBudget := 10 * 1024 } =
      .ok unit := rfl
  have hp : Pace tester unit (100 * 1000) := ⟨by decide, by decide, by decide, by decide⟩
  exact all_served hc hu 0 threeRequests (by decide) (by decide) (fun _ => 100 * 1000) fun _ => hp

end CanTransport.Bench
