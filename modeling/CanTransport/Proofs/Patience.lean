import CanTransport.Proofs.Inputs

/-! # How long a sender waits to be let on

A peer may put a sender off with one wait after the other. The sender counts them from the last time
that it was let on, and gives up at the first one past its limit. The count is kept within a byte,
so a limit of 255 is never passed.
-/
namespace CanTransport

/-- The waits after the last time that the sender was let on. -/
def waitsSince (heard : List FlowStatus) : Nat :=
      (heard.reverse.takeWhile (· ≠ .continueToSend)).count .wait

section Waits
variable (heard : List FlowStatus)

@[simp] theorem waitsSince_nil : waitsSince [] = 0 := rfl

@[simp] theorem waitsSince_wait :
    waitsSince (heard ++ [.wait]) = waitsSince heard + 1 := by simp [waitsSince]

@[simp] theorem waitsSince_overflow :
    waitsSince (heard ++ [.overflow]) = waitsSince heard := by simp [waitsSince]

@[simp] theorem waitsSince_continueToSend :
    waitsSince (heard ++ [.continueToSend]) = 0 := by simp [waitsSince]

end Waits

namespace Sender
variable {s : Sender} {now : Micros} {frame : Option Frame}

def hearsIn (s : Sender) : Endpoint.Input → Option FlowStatus
  | .turn now _ frame _ _ => s.hears now frame
  | .outcome _ _ | .blockSize _ | .separation _ => none

theorem countWait_toNat (waits : UInt8) : (countWait waits).toNat = min (waits.toNat + 1) 255 := by
  have hlt := waits.toNat_lt
  unfold countWait
  split
  · next h =>
    subst h
    rfl
  · next h =>
    have hne : waits.toNat ≠ 255 := fun he => h (UInt8.toNat_inj.mp he)
    rw [UInt8.toNat_add]
    change (waits.toNat + 1) % 256 = _
    omega

theorem Fails.hears {error : TransferError} (h : s.Fails now frame error) :
    error ≠ .waitFrameOverrun ∧
    (s.hears now frame = none ∨ s.hears now frame = some .overflow) := by
  cases h with
  | unsendable sends =>
    exact ⟨by decide, .inl (hears_eq_none (by rcases sends with hp | hp | hp <;> simp [isAwaiting, hp]))⟩
  | unexpected input awaits form =>
    refine ⟨by decide, .inl ?_⟩
    simp [Sender.hears, input, form]
  | overflow heard => exact ⟨by split <;> decide, .inr heard⟩
  | invalid input awaits form status =>
    refine ⟨by decide, .inl ?_⟩
    simp [Sender.hears, input, status]

end Sender

structure Patience where
  sender : Sender
  heard : List FlowStatus := []

namespace Patience
variable {x : Patience} {s : Sender} {limit : Option UInt8} {now : Micros} {frame : Option Frame}

def react (x : Patience) (input : Endpoint.Input) : Patience where
  sender := x.sender.react input
  heard := x.heard ++ (x.sender.hearsIn input).toList

def run (x : Patience) (inputs : List Endpoint.Input) : Patience := inputs.foldl react x

/-- A running sender has counted its waits, as far as a byte goes, and they are within the limit; at
the end they are past it exactly if that is why the sender has given up. -/
structure Counted (x : Patience) (limit : Option UInt8) : Prop where
  limit_eq : x.sender.waitLimit = limit
  tidy : x.sender.Tidy
  waits : x.sender.result = none → x.sender.waits.toNat = min (waitsSince x.heard) 255
  within : x.sender.result ≠ some (.error .waitFrameOverrun) → ∀ n, limit = some n → n ≠ 255 →
    waitsSince x.heard ≤ n.toNat
  beyond : x.sender.result = some (.error .waitFrameOverrun) → ∃ n, limit = some n ∧ n ≠ 255 ∧
    waitsSince x.heard = n.toNat + 1

theorem Counted.pass (h : x.Counted limit) (running : x.sender.result = none)
    (heard : List FlowStatus) (hw : waitsSince heard = waitsSince x.heard)
    (hl : s.waitLimit = x.sender.waitLimit) (tidy : s.Tidy)
    (hs : s.result = none → s.waits = x.sender.waits)
    (hne : s.result ≠ some (.error .waitFrameOverrun)) :
    Counted { sender := s, heard } limit where
  limit_eq := hl.trans h.limit_eq
  tidy := tidy
  waits hr := by
    rw [hw, hs hr]
    exact h.waits running
  within _ n hn h255 := by
    rw [hw]
    exact h.within (by simp [running]) n hn h255
  beyond hr := absurd hr hne

theorem Counted.conclude (h : x.Counted limit) (running : x.sender.result = none)
    (heard : List FlowStatus) (hw : waitsSince heard = waitsSince x.heard)
    (hl : s.waitLimit = x.sender.waitLimit) (tidy : s.Tidy) {result : TransferResult}
    (hr : s.result = some result) (hne : result ≠ .error .waitFrameOverrun) :
    Counted { sender := s, heard } limit :=
  h.pass running heard hw hl tidy (fun he => by cases hr.symm.trans he) fun he =>
    hne (Option.some.inj (hr.symm.trans he))

theorem Counted.goOn (h : x.Counted limit) (running : x.sender.result = none)
    (heard : List FlowStatus) (hw : waitsSince heard = waitsSince x.heard)
    (hl : s.waitLimit = x.sender.waitLimit) (tidy : s.Tidy) (hs : s.waits = x.sender.waits)
    (hr : s.result = none) : Counted { sender := s, heard } limit :=
  h.pass running heard hw hl tidy (fun _ => hs) (by simp [hr])

/-- With one more wait the count is one more, unless it stands at the largest byte. -/
theorem Counted.countWait (h : x.Counted limit) (running : x.sender.result = none) :
    (Sender.countWait x.sender.waits).toNat = min (waitsSince x.heard + 1) 255 := by
  rw [Sender.countWait_toNat, h.waits running]
  omega

theorem Counted.putOff (h : x.Counted limit) (running : x.sender.result = none)
    (within : x.sender.waitLimit.any (· < Sender.countWait x.sender.waits) = false)
    (hl : s.waitLimit = x.sender.waitLimit) (tidy : s.Tidy)
    (hs : s.waits = Sender.countWait x.sender.waits) (hr : s.result = none) :
    Counted { sender := s, heard := x.heard ++ [.wait] } limit where
  limit_eq := hl.trans h.limit_eq
  tidy := tidy
  waits _ := by
    rw [waitsSince_wait, hs, h.countWait running]
  within _ n hn h255 := by
    rw [waitsSince_wait]
    rw [h.limit_eq, hn] at within
    have hle : (Sender.countWait x.sender.waits).toNat ≤ n.toNat := by
      simpa [UInt8.lt_iff_toNat_lt] using within
    have hcount := h.countWait running
    have hne : n.toNat ≠ 255 := fun he => h255 (UInt8.toNat_inj.mp he)
    have hlt := n.toNat_lt
    omega
  beyond he := by cases hr.symm.trans he

/-- A wait past the limit is the first one that is, and no count is past 255. -/
theorem Counted.giveUp (h : x.Counted limit) (running : x.sender.result = none)
    (beyond : x.sender.waitLimit.any (· < Sender.countWait x.sender.waits) = true)
    (hl : s.waitLimit = x.sender.waitLimit) (tidy : s.Tidy)
    (hr : s.result = some (.error .waitFrameOverrun)) :
    Counted { sender := s, heard := x.heard ++ [.wait] } limit where
  limit_eq := hl.trans h.limit_eq
  tidy := tidy
  waits he := by cases hr.symm.trans he
  within he := absurd hr he
  beyond _ := by
    obtain ⟨n, hn, hlt⟩ := (Option.any_eq_true _ _).mp beyond
    have hlt : n.toNat < (Sender.countWait x.sender.waits).toNat := by
      simpa [UInt8.lt_iff_toNat_lt] using hlt
    rw [h.countWait running] at hlt
    have h255 : n ≠ 255 := by
      rintro rfl
      change 255 < _ at hlt
      omega
    have hle := h.within (by simp [running]) n (h.limit_eq ▸ hn) h255
    refine ⟨n, h.limit_eq ▸ hn, h255, ?_⟩
    rw [waitsSince_wait]
    omega

theorem Counted.letOn (h : x.Counted limit) (hl : s.waitLimit = x.sender.waitLimit)
    (tidy : s.Tidy) (hs : s.waits = 0) (hr : s.result = none) :
    Counted { sender := s, heard := x.heard ++ [.continueToSend] } limit where
  limit_eq := hl.trans h.limit_eq
  tidy := tidy
  waits _ := by
    rw [waitsSince_continueToSend, hs]
    rfl
  within _ n _ _ := by
    rw [waitsSince_continueToSend]
    exact Nat.zero_le _
  beyond he := by cases hr.symm.trans he

theorem Counted.turn (h : x.Counted limit) (now after : Micros) (frame : Option Frame)
    (budget : Budget) (accepted : Bool) :
    (x.react (.turn now after frame budget accepted)).Counted limit := by
  have does := x.sender.step_does now frame
  have tidy : ((x.sender.step now frame).finish accepted after).1.Tidy := does.tidy h.tidy
  rw [react, Sender.react, Sender.hearsIn]
  generalize x.sender.step now frame = move at does tidy ⊢
  have silent (hears : x.sender.hears now frame = none) :
      waitsSince (x.heard ++ (x.sender.hears now frame).toList) = waitsSince x.heard := by
    rw [hears, Option.toList_none, List.append_nil]
  cases does with
  | closed latched =>
    rw [Sender.hears, if_neg (by simp [latched]), Option.toList_none, List.append_nil]
    exact h
  | expires running expired =>
    refine h.conclude running _ (silent (if_neg (by simp [expired]))) rfl tidy rfl fun hr => ?_
    rcases Sender.timeout_of_expired? expired with rfl | rfl <;> cases hr
  | fails running timely reason =>
    obtain ⟨hne, hears⟩ := reason.hears
    refine h.conclude running _ ?_ rfl tidy rfl fun hr => hne (Except.error.inj hr)
    rcases hears with hears | hears
    · exact silent hears
    · rw [hears]
      exact waitsSince_overflow x.heard
  | offers running timely due sends =>
    have quiet : x.sender.hears now frame = none := sends.unheard
    cases accepted with
    | false => exact h.goOn running _ (silent quiet) rfl tidy rfl running
    | true => cases sends <;> exact h.goOn running _ (silent quiet) rfl tidy rfl running
  | pauses running timely paced early =>
    exact h.goOn running _ (silent (Sender.unheard_of_dueAt paced)) rfl tidy rfl running
  | waits running timely idle =>
    exact h.goOn running _ (silent (Sender.unheard_of_idle idle)) rfl tidy rfl running
  | resumes input heard =>
    rw [heard]
    exact h.letOn rfl tidy rfl (Sender.running_of_hears heard).1
  | postpones heard within =>
    rw [heard]
    exact h.putOff (Sender.running_of_hears heard).1 within rfl tidy rfl
      (Sender.running_of_hears heard).1
  | overruns heard beyond =>
    rw [heard]
    exact h.giveUp (Sender.running_of_hears heard).1 beyond rfl tidy rfl
  | stuck running timely ended => exact absurd ended (not_or.mpr (h.tidy.open_ running))

theorem Counted.outcome (h : x.Counted limit) (now : Micros) (ack : Ack) :
    (x.react (.outcome now ack)).Counted limit := by
  have learns := x.sender.onAck_learns now ack
  have tidy := learns.tidy h.tidy
  rw [react, Sender.react, Sender.hearsIn, Option.toList_none, List.append_nil]
  generalize x.sender.onAck now ack = s at learns tidy ⊢
  have running {p : SenderPhase} (hp : x.sender.phase = p) (hne : p ≠ .sent ∧ p ≠ .failed) :
      x.sender.result = none :=
    h.tidy.running (hp ▸ hne)
  cases learns with
  | closed => exact h
  | fails open_ => exact h.conclude (h.tidy.running open_) _ rfl rfl tidy rfl (by decide)
  | single hp | last hp => exact h.conclude (running hp (by decide)) _ rfl rfl tidy rfl (by decide)
  | first hp | block hp | next hp =>
    exact h.goOn (running hp (by decide)) _ rfl rfl tidy rfl (running hp (by decide))

theorem Counted.react (h : x.Counted limit) (input : Endpoint.Input) :
    (x.react input).Counted limit := by
  cases input with
  | turn now after frame budget accepted => exact h.turn now after frame budget accepted
  | outcome now ack => exact h.outcome now ack
  | blockSize | separation =>
    rw [Patience.react, Sender.react, Sender.hearsIn, Option.toList_none, List.append_nil]
    exact h

theorem Counted.run (h : x.Counted limit) (inputs : List Endpoint.Input) :
    (x.run inputs).Counted limit := by
  induction inputs generalizing x with
  | nil => exact h
  | cons input inputs ih => exact ih (h.react input)

theorem counted_initial (address : Address) (message : List UInt8) (kind : MessageType)
    (limit : Option UInt8) :
    Counted { sender := .initial address message kind limit } limit where
  limit_eq := rfl
  tidy := Sender.tidy_initial address message kind limit
  waits _ := rfl
  within _ _ _ _ := Nat.zero_le _
  beyond hr := by cases hr

/-- A sender gives up for too many waits at the first one past its limit, whatever else it is given,
but for the limit of 255, which it never passes; without a limit it never does. -/
theorem overrun_iff {address : Address} {message : List UInt8} {kind : MessageType}
    {budget rest : Budget} (h : Sender.create address message kind limit budget = .ok (s, rest))
    (inputs : List Endpoint.Input) :
    ((run { sender := s } inputs).sender.result = some (.error .waitFrameOverrun) ↔
      ∃ n, limit = some n ∧ n ≠ 255 ∧ waitsSince (run { sender := s } inputs).heard = n.toNat + 1) ∧
    ∀ n, limit = some n → n ≠ 255 →
      waitsSince (run { sender := s } inputs).heard ≤ n.toNat + 1 := by
  obtain rfl := Sender.create_ok h
  have counted := (counted_initial address message kind limit).run inputs
  refine ⟨⟨counted.beyond, fun ⟨n, hn, h255, heq⟩ => Decidable.byContradiction fun hne => ?_⟩,
    fun n hn h255 => ?_⟩
  · have hle := counted.within hne n hn h255
    omega
  · by_cases hr : (run { sender := .initial address message kind limit } inputs).sender.result =
        some (.error .waitFrameOverrun)
    · obtain ⟨m, hm, -, heq⟩ := counted.beyond hr
      obtain rfl := Option.some.inj (hn.symm.trans hm)
      exact Nat.le_of_eq heq
    · exact Nat.le_succ_of_le (counted.within hr n hn h255)

def wait : Frame := Pdu.flowControl (.physical 0xF1 0x10) .wait 0 .zero

def putOff (count : Nat) : List Endpoint.Input :=
  [.turn 0 0 none ⟨948⟩ true, .outcome 0 .success] ++
    List.replicate count (.turn 0 0 (some wait) ⟨948⟩ true)

theorem overrun_iff_three : ∃ s rest,
    Sender.create (.physical 0x10 0xF1) ((List.range 20).map UInt8.ofNat) .diagnostics (some 2)
      ⟨1000⟩ = .ok (s, rest) ∧ (run { sender := s } (putOff 2)).sender.result = none ∧
      (run { sender := s } (putOff 3)).sender.result = some (.error .waitFrameOverrun) ∧
      ((run { sender := s } (putOff 3)).sender.result = some (.error .waitFrameOverrun) ↔
        ∃ n : UInt8, some 2 = some n ∧ n ≠ 255 ∧
          waitsSince (run { sender := s } (putOff 3)).heard = n.toNat + 1) := by
  have created : Sender.create (.physical 0x10 0xF1) ((List.range 20).map UInt8.ofNat)
      .diagnostics (some 2) ⟨1000⟩ =
      .ok (.initial (.physical 0x10 0xF1) ((List.range 20).map UInt8.ofNat) .diagnostics (some 2),
        ⟨948⟩) := rfl
  exact ⟨_, _, created, by decide, by decide, (overrun_iff created (putOff 3)).1⟩

/-- A sender that waits for flow control, with the limit that it never passes. -/
structure Endless (x : Patience) : Prop where
  running : x.sender.result = none
  confirmed : x.sender.nAs.isRunning = false
  since : x.sender.nBs = .start 0
  awaits : x.sender.isAwaiting = true
  limit : x.sender.waitLimit = some 255

theorem Endless.step_eq (h : x.Endless) : x.sender.step 0 (some wait) =
    .rest { x.sender.notePace 0 with waits := Sender.countWait x.sender.waits, nBs := .start 0, phase := .awaitFlow }
      .inProgress := by
  have htimely : x.sender.nBs.exceeded 0 Timing.flowControlLimit = false := by rw [h.since]; rfl
  have hwithin : ¬(x.sender.waitLimit.any (· < Sender.countWait x.sender.waits) = true) := by
    have hle := (Sender.countWait x.sender.waits).toNat_lt
    simp [h.limit, UInt8.le_iff_toNat_le]
    omega
  have hawaits : (x.sender.notePace 0).isAwaiting = true := h.awaits
  rw [Sender.step_act h.running h.confirmed htimely, Sender.act_awaiting hawaits]
  exact if_neg hwithin

theorem Endless.react (h : x.Endless) : (x.react (.turn 0 0 (some wait) ⟨948⟩ true)).Endless ∧
    (x.react (.turn 0 0 (some wait) ⟨948⟩ true)).heard = x.heard ++ [.wait] := by
  have htimely : x.sender.expired? 0 = none := by
    have hb : x.sender.nBs.exceeded 0 Timing.flowControlLimit = false := by rw [h.since]; rfl
    simp [Sender.expired?, Stopwatch.exceeded_of_stopped h.confirmed, hb]
  have heard : x.sender.hears 0 (some wait) = some .wait :=
    Sender.hears_some h.running htimely h.awaits rfl
  rw [Patience.react, Sender.react, Sender.hearsIn, h.step_eq, heard]
  exact ⟨⟨h.running, h.confirmed, rfl, rfl, h.limit⟩, rfl⟩

theorem Endless.run (h : x.Endless) (count : Nat) :
    (x.run (List.replicate count (.turn 0 0 (some wait) ⟨948⟩ true))).sender.result = none ∧
      waitsSince (x.run (List.replicate count (.turn 0 0 (some wait) ⟨948⟩ true))).heard =
      waitsSince x.heard + count := by
  induction count generalizing x with
  | zero => exact ⟨h.running, rfl⟩
  | succ count ih =>
    obtain ⟨endless, heard⟩ := h.react
    obtain ⟨running, hcount⟩ := ih endless
    rw [List.replicate_succ, Patience.run, List.foldl_cons]
    refine ⟨running, hcount.trans ?_⟩
    rw [heard, waitsSince_wait]
    omega

def utmostPatience : Sender :=
  .initial (.physical 0x10 0xF1) ((List.range 20).map UInt8.ofNat) .diagnostics (some 255)

/-- With the limit of 255 a sender may be put off once more than that, and still waits. -/
theorem overrun_late :
    ¬∀ {limit : UInt8} {s : Sender} {address : Address} {message : List UInt8} {kind : MessageType}
    {budget rest : Budget}
    (_ : Sender.create address message kind (some limit) budget = .ok (s, rest))
    (inputs : List Endpoint.Input), (run { sender := s } inputs).sender.result =
    some (.error .waitFrameOverrun) ↔
      waitsSince (run { sender := s } inputs).heard = limit.toNat + 1 := by
  intro h
  have created : Sender.create (.physical 0x10 0xF1) ((List.range 20).map UInt8.ofNat)
      .diagnostics (some 255) ⟨1000⟩ = .ok (utmostPatience, ⟨948⟩) := rfl
  have endless : Endless (run { sender := utmostPatience } (putOff 0)) :=
    ⟨by decide, by decide, by decide, by decide, by decide⟩
  obtain ⟨running, hcount⟩ := endless.run 256
  have hrun : run { sender := utmostPatience } (putOff 256) =
      (run { sender := utmostPatience } (putOff 0)).run
        (List.replicate 256 (.turn 0 0 (some wait) ⟨948⟩ true)) := List.foldl_append
  have late := (h created (putOff 256)).mpr (by rw [hrun, hcount]; decide)
  rw [hrun, running] at late
  cases late

end Patience
end CanTransport
