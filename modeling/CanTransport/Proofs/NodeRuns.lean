import CanTransport.Bench.Exchange
import CanTransport.Proofs.LockDiscipline

/-! # A station by itself

Between controllers that take every frame and report its success at once, a program that runs at one
station sees that station, its inbox and its outcomes only. The other stations are left with the
frames that it sends.
-/
namespace CanTransport.Bench

/-- What can be seen of a station and its controller. -/
structure NodeView where
  station : Station
  inbox : List Frame := []
  outcomes : List Ack := []
  notices : List Notice := []

/-- A station while a program runs at it; `sent` has what went out meanwhile. -/
structure NodeRun extends NodeView where
  clock : Micros
  sent : List Frame := []

def NodeRun.answer : (q : Query) → NodeRun → q.Answer × NodeRun
  | .acquire _, d => (true, d)
  | .release _, d => ((), d)
  | .access change, d => (d.station, { d with station := change d.station })
  | .now, d => (d.clock, d)
  | .isActive, d => (true, d)
  | .available, d => (d.inbox.length, d)
  | .read, d => (d.inbox.head?, { d with inbox := d.inbox.tail })
  | .write _ frame, d =>
    (true, { d with sent := d.sent ++ [frame], outcomes := d.outcomes ++ [.success] })
  | .outcome, d => (d.outcomes.head?, { d with outcomes := d.outcomes.tail })
  | .notify _ notice, d => ((), { d with notices := d.notices ++ [notice] })

namespace NodeRun
open CanTransport.Action
variable {α : Type}

@[simp] theorem run_acquire (lock : Lock) (d : NodeRun) :
    (acquire lock).run answer d = (true, d) := rfl

@[simp] theorem run_release (lock : Lock) (d : NodeRun) :
    (release lock).run answer d = ((), d) := rfl

@[simp] theorem run_modify (change : Station → Station) (d : NodeRun) :
    (modify change).run answer d = ((), { d with station := change d.station }) := rfl

@[simp] theorem run_get (d : NodeRun) : get.run answer d = (d.station, d) := rfl

@[simp] theorem run_modifyGet (change : Station → α × Station) (d : NodeRun) :
    (modifyGet change).run answer d =
      ((change d.station).1, { d with station := (change d.station).2 }) := rfl

@[simp] theorem run_now (d : NodeRun) : now.run answer d = (d.clock, d) := rfl

@[simp] theorem run_isActive (d : NodeRun) : isActive.run answer d = (true, d) := rfl

@[simp] theorem run_available (d : NodeRun) : available.run answer d = (d.inbox.length, d) := rfl

@[simp] theorem run_read (d : NodeRun) :
    read.run answer d = (d.inbox.head?, { d with inbox := d.inbox.tail }) := rfl

@[simp] theorem run_write (writer : EndpointId) (frame : Frame) (d : NodeRun) :
    (write writer frame).run answer d =
      (true, { d with sent := d.sent ++ [frame], outcomes := d.outcomes ++ [.success] }) := rfl

@[simp] theorem run_outcome (d : NodeRun) :
    outcome.run answer d = (d.outcomes.head?, { d with outcomes := d.outcomes.tail }) := rfl

@[simp] theorem run_notify (source : EndpointId) (notice : Notice) (d : NodeRun) :
    (notify source notice).run answer d = ((), { d with notices := d.notices ++ [notice] }) := rfl

@[simp] theorem run_withLock (lock : Lock) (body : Action α) (d : NodeRun) :
    (withLock lock body).run answer d = (.ok (body.run answer d).1, (body.run answer d).2) := by
  unfold withLock
  simp [Program.run_bind]

end NodeRun

/-- Takes every frame and reports its success at once. -/
structure Controller.Plain (c : Controller) : Prop where
  online : c.offline = false
  willing : c.refuse = false
  honest : c.ghost = false
  prompt : c.automatic = some .success
  reliable : c.failNext = 0
  faithful : c.tampers = []

def Entry.noticeAt? (i : Nat) : Entry → Option Notice
  | .notice j n => if j = i then some n else none
  | _ => none

/-- What the application at a station has been told, in order. -/
def Bus.noticesAt (b : Bus) (i : Nat) : List Notice := b.log.reverse.filterMap (Entry.noticeAt? i)

/-- A node as it looks from outside, but for its notices. -/
structure Node.Shows (n : Node) (held : List Lock) (x : NodeView) : Prop where
  plain : n.controller.Plain
  direct : n.channel = none
  held : n.held = held
  station : n.station = x.station
  inbox : n.controller.inbox = x.inbox
  outcomes : n.controller.outcomes = x.outcomes

/-- A bus as it looks from outside, station by station. -/
structure Bus.Shows (b : Bus) (clock : Micros) (held : Nat → List Lock) (view : Nat → NodeView) :
    Prop where
  clock : b.clock = clock
  hooks : b.hooks = []
  node : ∀ i, i < b.nodes.length → (b.node i).Shows (held i) (view i)
  notices : ∀ i, i < b.nodes.length → b.noticesAt i = (view i).notices

namespace Bus
variable {b : Bus} {i j : Nat} {clock : Micros} {held : Nat → List Lock} {view : Nat → NodeView}

theorem node_modifyNode (b : Bus) (f : Node → Node) (hi : i < b.nodes.length) :
    (b.modifyNode i f).node j = if j = i then f (b.node i) else b.node j := by
  unfold node modifyNode
  simp only [List.getD_eq_getElem?_getD, List.getElem?_modify]
  by_cases hj : j = i
  · simp [hj, hi]
  · simp [hj, Ne.symm hj]

@[simp] theorem length_modifyNode (b : Bus) (i : Nat) (f : Node → Node) :
    (b.modifyNode i f).nodes.length = b.nodes.length := by
  simp [modifyNode]

theorem node_broadcast (b : Bus) (t : Transit) (hj : j < b.nodes.length) :
    (b.broadcast i t).node j =
      if j = i || (b.node j).controller.offline then b.node j
      else { b.node j with controller := (b.node j).controller.receive (List.replicate t.copies t.frame) } := by
  unfold node broadcast
  simp only [List.getD_eq_getElem?_getD, List.getElem?_mapIdx, List.getElem?_eq_getElem hj]
  rfl

@[simp] theorem length_broadcast (b : Bus) (i : Nat) (t : Transit) :
    (b.broadcast i t).nodes.length = b.nodes.length := by
  simp [broadcast]

theorem Shows.modify {held' : Nat → List Lock} {view' : Nat → NodeView} {f : Node → Node}
    (h : b.Shows clock held view) (hi : i < b.nodes.length)
    (hf : (f (b.node i)).Shows (held' i) (view' i)) (hn : (view' i).notices = (view i).notices)
    (hj : ∀ j, j ≠ i → held' j = held j ∧ view' j = view j) :
    (b.modifyNode i f).Shows clock held' view' := by
  constructor
  · exact h.clock
  · exact h.hooks
  · intro j hj'
    rw [length_modifyNode] at hj'
    rw [node_modifyNode b f hi]
    split
    · next he => exact he ▸ hf
    · next he =>
      rw [(hj j he).1, (hj j he).2]
      exact h.node j hj'
  · intro j hj'
    rw [length_modifyNode] at hj'
    change b.noticesAt j = _
    rw [h.notices j hj']
    by_cases he : j = i
    · rw [he, hn]
    · rw [(hj j he).2]

def holding (i : Nat) (held : List Lock) (j : Nat) : List Lock := if j = i then held else []

def around (view : Nat → NodeView) (i : Nat) (d : NodeRun) (j : Nat) : NodeView :=
  if j = i then d.toNodeView else { view j with inbox := (view j).inbox ++ d.sent }

variable {d : NodeRun} {locks locks' : List Lock}

theorem Shows.own {f : Node → Node} (h : b.Shows d.clock (holding i locks) (around view i d))
    (hi : i < b.nodes.length) (d' : NodeRun)
    (hf : (b.node i).Shows locks d.toNodeView → (f (b.node i)).Shows locks' d'.toNodeView)
    (hc : d'.clock = d.clock) (hn : d'.notices = d.notices) (hs : d'.sent = d.sent) :
    (b.modifyNode i f).Shows d'.clock (holding i locks') (around view i d') := by
  have hown := h.node i hi
  simp only [holding, around, if_true] at hown
  rw [hc]
  refine h.modify hi ?_ ?_ fun j hj => ?_
  · simpa only [holding, around, if_true] using hf hown
  · simpa only [around, if_true] using hn
  · simp only [holding, around, if_neg hj, hs, and_self]

abbrev hookless (i : Nat) : Responder := answer (fun moment b => b.count i moment) i

theorem Shows.acquire {lock : Lock} (h : b.Shows d.clock (holding i locks) (around view i d))
    (hi : i < b.nodes.length) (hl : lock ∉ locks) :
    (hookless i (.acquire lock) b).1 = true ∧
      (hookless i (.acquire lock) b).2.Shows d.clock (holding i (lock :: locks)) (around view i d) ∧
        (hookless i (.acquire lock) b).2.nodes.length = b.nodes.length := by
  have hown := h.node i hi
  have hheld : (b.node i).held = locks := by rw [hown.held, holding, if_pos rfl]
  have hc : (b.node i).held.contains lock = false := by
    rw [hheld]
    simpa using hl
  have he : hookless i (.acquire lock) b =
      (true, b.modifyNode i fun n => { n with held := lock :: n.held }) := by
    simp [hookless, answer, hheld, hl]
  rw [he]
  refine ⟨rfl, h.own hi _ (fun hn => ?_) rfl rfl rfl, length_modifyNode _ _ _⟩
  exact ⟨hn.plain, hn.direct, congrArg _ hn.held, hn.station, hn.inbox, hn.outcomes⟩

theorem Shows.count (h : b.Shows clock held view) (hi : i < b.nodes.length) (moment : Moment) :
    (b.count i moment).Shows clock held view := by
  have hn := h.node i hi
  exact h.modify hi ⟨hn.plain, hn.direct, hn.held, hn.station, hn.inbox, hn.outcomes⟩ rfl fun j _ =>
    ⟨rfl, rfl⟩

theorem Shows.record (h : b.Shows clock held view) {e : Entry} (he : ∀ j, e.noticeAt? j = none) :
    (b.record e).Shows clock held view := by
  refine ⟨h.clock, h.hooks, h.node, fun j hj => ?_⟩
  rw [← h.notices j hj]
  simp [noticesAt, Bus.record, he]

theorem Shows.broadcast (h : b.Shows clock held view) (i : Nat) (frame : Frame) :
    (b.broadcast i { frame }).Shows clock held
      fun j => if j = i then view j else { view j with inbox := (view j).inbox ++ [frame] } := by
  constructor
  · exact h.clock
  · exact h.hooks
  · intro j hj
    rw [length_broadcast] at hj
    have hn := h.node j hj
    rw [node_broadcast b _ hj, hn.plain.online, Bool.or_false]
    by_cases he : j = i
    · simpa only [he, decide_true, if_true] using he ▸ hn
    · simp only [he, decide_false, Bool.false_eq_true, if_false]
      refine ⟨?_, hn.direct, hn.held, hn.station, ?_, hn.outcomes⟩
      · exact ⟨hn.plain.online, hn.plain.willing, hn.plain.honest, hn.plain.prompt,
          hn.plain.reliable, hn.plain.faithful⟩
      · exact congrArg (· ++ [frame]) hn.inbox
  · intro j hj
    rw [length_broadcast] at hj
    rw [show (b.broadcast i { frame }).noticesAt j = b.noticesAt j from rfl, h.notices j hj]
    split <;> rfl

theorem offer_plain {c : Controller} (h : c.Plain) (frame : Frame) :
    c.offer frame =
      (.sent { frame },
        { c with writes := c.writes + 1, outcomes := c.outcomes ++ [.success] }) := by
  obtain ⟨h₁, h₂, -, h₄, h₅, h₆⟩ := h
  simp [Controller.offer, Controller.transit, Controller.report, h₁, h₂, h₄, h₅, h₆]

theorem Shows.release (lock : Lock) (h : b.Shows d.clock (holding i locks) (around view i d))
    (hi : i < b.nodes.length) :
    (hookless i (.release lock) b).2.Shows d.clock (holding i (locks.erase lock))
      (around view i d) ∧ (hookless i (.release lock) b).2.nodes.length = b.nodes.length := by
  refine ⟨h.own hi _ (fun hn => ?_) rfl rfl rfl, length_modifyNode _ _ _⟩
  exact ⟨hn.plain, hn.direct, congrArg (·.erase lock) hn.held, hn.station, hn.inbox, hn.outcomes⟩

theorem Shows.write {writer : EndpointId} {frame : Frame}
    (h : b.Shows d.clock (holding i locks) (around view i d)) (hi : i < b.nodes.length) :
    (hookless i (.write writer frame) b).1 = true ∧
      (hookless i (.write writer frame) b).2.Shows d.clock (holding i locks)
        (around view i (d.answer (.write writer frame)).2) ∧
        (hookless i (.write writer frame) b).2.nodes.length = b.nodes.length := by
  have h := h.count hi .write
  have hi : i < (b.count i .write).nodes.length := by rwa [Bus.count, length_modifyNode]
  have hown := h.node i hi
  simp only [holding, around, if_true] at hown
  have ho := offer_plain hown.plain frame
  have he : hookless i (.write writer frame) b =
      (true, (((b.count i .write).modifyController i fun _ =>
      ((b.count i .write).node i).controller.offer frame |>.2).record (.sent i frame)).broadcast i
        { frame }) := by
    change (b.count i .write).write i frame = _
    unfold Bus.write
    rw [ho]
  rw [he]
  refine ⟨rfl, ?_, ?_⟩
  · have hc : ((b.count i .write).modifyController i fun _ =>
        ((b.count i .write).node i).controller.offer frame |>.2).Shows
        d.clock (holding i locks)
          (around view i { d with outcomes := d.outcomes ++ [.success] }) := by
      refine h.own hi { d with outcomes := d.outcomes ++ [.success] } (fun hn => ?_) rfl rfl rfl
      rw [ho]
      refine ⟨?_, hn.direct, hn.held, hn.station, hn.inbox,
        congrArg (· ++ [Ack.success]) hn.outcomes⟩
      exact ⟨hn.plain.online, hn.plain.willing, hn.plain.honest, hn.plain.prompt,
        hn.plain.reliable, hn.plain.faithful⟩
    have hsent := (hc.record (e := .sent i frame) fun _ => rfl).broadcast i frame
    have hside :
        (fun j => if j = i then around view i { d with outcomes := d.outcomes ++ [.success] } j else
        { around view i { d with outcomes := d.outcomes ++ [.success] } j with
          inbox := (around view i { d with outcomes := d.outcomes ++ [.success] } j).inbox ++
            [frame] }) =
        around view i (d.answer (.write writer frame)).2 := by
      funext j
      by_cases hj : j = i
      · simp [around, hj, NodeRun.answer]
      · simp [around, hj, NodeRun.answer]
    rwa [hside] at hsent
  · rw [length_broadcast]
    exact (length_modifyNode _ _ _).trans (length_modifyNode _ _ _)

theorem Shows.notify {source : EndpointId} {notice : Notice}
    (h : b.Shows d.clock (holding i locks) (around view i d)) (hi : i < b.nodes.length) :
    (hookless i (.notify source notice) b).2.Shows d.clock (holding i locks)
        (around view i (d.answer (.notify source notice)).2) ∧
      (hookless i (.notify source notice) b).2.nodes.length = b.nodes.length := by
  have hown := h.node i hi
  have hd : b.deliverNotice i notice = b.record (.notice i notice) := by
    unfold deliverNotice
    rw [hown.direct]
  have hr : (b.record (.notice i notice)).Shows d.clock (holding i locks)
      (around view i (d.answer (.notify source notice)).2) := by
    refine ⟨h.clock, h.hooks, fun j hj => ?_, fun j hj => ?_⟩
    · have hn := h.node j hj
      by_cases he : j = i
      · subst he
        simp only [around, if_true] at hn ⊢
        exact ⟨hn.plain, hn.direct, hn.held, hn.station, hn.inbox, hn.outcomes⟩
      · simp only [around, if_neg he] at hn ⊢
        exact hn
    · have hn := h.notices j hj
      have hlog : (b.record (.notice i notice)).noticesAt j =
          b.noticesAt j ++ if i = j then [notice] else [] := by
        by_cases he : i = j <;> simp [noticesAt, Bus.record, Entry.noticeAt?, he]
      rw [hlog, hn]
      by_cases he : j = i
      · subst he
        simp [around, NodeRun.answer]
      · simp [around, NodeRun.answer, he, Ne.symm he]
  have he : hookless i (.notify source notice) b =
      ((), (b.record (.notice i notice)).count i (momentOf notice)) :=
    congrArg (fun b => ((), Bus.count b i (momentOf notice))) hd
  rw [he]
  exact ⟨hr.count hi _, length_modifyNode _ _ _⟩

theorem Shows.answer (h : b.Shows d.clock (holding i locks) (around view i d))
    (hi : i < b.nodes.length) (q : Query) (hq : ∀ lock, q ≠ .acquire lock ∧ q ≠ .release lock) :
    (hookless i q b).1 = (d.answer q).1 ∧
      (hookless i q b).2.Shows (d.answer q).2.clock (holding i locks)
      (around view i (d.answer q).2) ∧
        (hookless i q b).2.nodes.length = b.nodes.length := by
  have hown := h.node i hi
  simp only [holding, around, if_true] at hown
  cases q with
  | acquire lock => exact absurd rfl (hq lock).1
  | release lock => exact absurd rfl (hq lock).2
  | access change =>
    refine ⟨hown.station, h.own hi _ (fun hn => ?_) rfl rfl rfl, length_modifyNode _ _ _⟩
    exact ⟨hn.plain, hn.direct, hn.held, congrArg change hn.station, hn.inbox, hn.outcomes⟩
  | now => exact ⟨h.clock, h, rfl⟩
  | isActive =>
    refine ⟨?_, h, rfl⟩
    change (!(b.node i).controller.offline) = true
    rw [hown.plain.online]
    rfl
  | available =>
    refine ⟨?_, h, rfl⟩
    change (b.node i).controller.inbox.length + (if (b.node i).controller.ghost then 1 else 0) =
      d.inbox.length
    rw [hown.inbox, hown.plain.honest]
    rfl
  | read =>
    have h := h.count hi .read
    have hi : i < (b.count i .read).nodes.length := by rwa [Bus.count, length_modifyNode]
    have hown := h.node i hi
    simp only [holding, around, if_true] at hown
    refine ⟨congrArg List.head? hown.inbox, h.own hi _ (fun hn => ?_) rfl rfl rfl,
      (length_modifyNode _ _ _).trans (length_modifyNode _ _ _)⟩
    refine ⟨?_, hn.direct, hn.held, hn.station, congrArg List.tail hn.inbox, hn.outcomes⟩
    exact ⟨hn.plain.online, hn.plain.willing, hn.plain.honest, hn.plain.prompt,
      hn.plain.reliable, hn.plain.faithful⟩
  | write writer frame => exact h.write hi
  | outcome =>
    refine ⟨congrArg List.head? hown.outcomes, h.own hi _ (fun hn => ?_) rfl rfl rfl,
      length_modifyNode _ _ _⟩
    refine ⟨?_, hn.direct, hn.held, hn.station, hn.inbox, congrArg List.tail hn.outcomes⟩
    exact ⟨hn.plain.online, hn.plain.willing, hn.plain.honest, hn.plain.prompt,
      hn.plain.reliable, hn.plain.faithful⟩
  | notify source notice => exact ⟨rfl, h.notify hi⟩

theorem Shows.run {α : Type} {p : Action α} (hp : p.Disciplined locks' locks)
    (h : b.Shows d.clock (holding i locks) (around view i d)) (hi : i < b.nodes.length) :
    (p.run (hookless i) b).1 = (p.run NodeRun.answer d).1 ∧
      (p.run (hookless i) b).2.Shows (p.run NodeRun.answer d).2.clock (holding i locks')
        (around view i (p.run NodeRun.answer d).2) ∧
        (p.run (hookless i) b).2.nodes.length = b.nodes.length := by
  induction p generalizing b d locks with
  | done a =>
    obtain rfl : locks = locks' := hp
    exact ⟨rfl, h, rfl⟩
  | ask q next ih =>
    have hstep : ∀ {b' : Bus} {d' : NodeRun} {locks'' : List Lock} {answer : q.Answer},
        (next answer).Disciplined locks' locks'' →
        b'.Shows d'.clock (holding i locks'') (around view i d') →
        b'.nodes.length = b.nodes.length → hookless i q b = (answer, b') →
        d.answer q = (answer, d') → ((Program.ask q next).run (hookless i) b).1 =
        ((Program.ask q next).run NodeRun.answer d).1 ∧
          ((Program.ask q next).run (hookless i) b).2.Shows
          ((Program.ask q next).run NodeRun.answer d).2.clock
            (holding i locks') (around view i ((Program.ask q next).run NodeRun.answer d).2) ∧
            ((Program.ask q next).run (hookless i) b).2.nodes.length = b.nodes.length := by
      intro b' d' locks'' answer hp' h' hlen hb hd
      have hrun := ih answer hp' h' (hlen ▸ hi)
      have hr : (Program.ask q next).run (hookless i) b = (next answer).run (hookless i) b' := by
        rw [Program.run, hb]
      have hr' : (Program.ask q next).run NodeRun.answer d =
          (next answer).run NodeRun.answer d' := by
        rw [Program.run, hd]
      rw [hr, hr', ← hlen]
      exact hrun
    have hans := h.answer hi q
    cases q with
    | acquire lock =>
      obtain ⟨ha, hs, hlen⟩ := h.acquire hi hp.1
      exact hstep hp.2 hs hlen (Prod.ext ha rfl) rfl
    | release lock =>
      obtain ⟨hs, hlen⟩ := h.release lock hi
      exact hstep hp hs hlen rfl rfl
    | access | now | isActive | available | read | write | outcome | notify =>
      obtain ⟨ha, hs, hlen⟩ := hans fun lock => ⟨by simp, by simp⟩
      exact hstep (hp _) hs hlen (Prod.ext ha rfl) rfl

end Bus
end CanTransport.Bench
