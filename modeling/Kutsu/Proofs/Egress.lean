import Kutsu.Lib.Run
import Kutsu.Model.Egress
import Kutsu.Proofs.Pacer
import Kutsu.Proofs.WrapUp

/-! What the phone is sent: the pacer's frames, each encoded and in order, stamped on a clock of 20 ms a frame
that starts with the first of them. -/

namespace Kutsu

open Pipes Runs

namespace Downlink

def Filtered (d : Downlink) : Prop := ∃ xs, d.down = Downsampler.after xs

variable {taps : List ℚ} {d : Downlink}

theorem Filtered.framed (h : d.Filtered) : Pacer.Framed { d } := ⟨h, fun _ hf => by cases hf⟩

theorem Filtered.apply (h : d.Filtered) (taps : List ℚ) (op : PaceOp) : (op.apply taps d).Filtered := by
  rw [← Pacer.apply_d taps { d } op]
  exact (h.framed.apply op).down

theorem Filtered.length_nextFrame (h : d.Filtered) : (d.nextFrame taps).1.length = 160 :=
  (h.framed.nextFrame (h := taps)).frames _ (List.mem_singleton_self _)

end Downlink

namespace BridgeTask

variable {g : Option ℕ} {taps : List ℚ} {s s' : BridgeTask} {now : ℕ} {input : BridgeInput}

theorem tick_spec (h : s.step g taps (now, .tick) = some s') :
    s.bridge.nextTick ≤ now ∧ s'.bridge = (s.bridge.onTick taps now).1 := by
  simp only [step] at h
  split_ifs at h with hc
  obtain rfl := Option.some.inj h
  exact ⟨of_decide_eq_true (Bool.and_eq_true_iff.mp hc).2, rfl⟩

theorem onPhoneGone_downlink (b : Bridge) :
    (b.onPhoneGone g now).nextTick = b.nextTick ∧
      (b.downlink.Filtered → (b.onPhoneGone g now).downlink.Filtered) := by
  unfold Bridge.onPhoneGone
  cases g with
  | none => exact ⟨rfl, id⟩
  | some ms => dsimp only; split_ifs <;> exact ⟨rfl, id⟩

theorem onEvent_downlink (muted : Bool) (ev : Event) (b : Bridge) :
    (b.onEvent muted now ev).1.nextTick = b.nextTick ∧
      (b.downlink.Filtered → (b.onEvent muted now ev).1.downlink.Filtered) := by
  cases ev with
  | outputAudio pcm =>
    simp only [Bridge.onEvent]
    split_ifs
    · exact ⟨rfl, id⟩
    · exact ⟨rfl, fun hf => (hf.apply [] (.setExpecting true)).apply [] (.push pcm)⟩
  | interrupted =>
    exact ⟨rfl, fun hf => (hf.apply [] (.setExpecting false)).apply [] (.interruptFade 25)⟩
  | turnComplete => exact ⟨rfl, fun hf => hf.apply [] (.setExpecting false)⟩
  | _ => exact ⟨rfl, id⟩

theorem pace_step (h : s.step g taps (now, input) = some s') (hin : input ≠ .tick) :
    s'.bridge.nextTick = s.bridge.nextTick ∧ (s.bridge.downlink.Filtered → s'.bridge.downlink.Filtered) := by
  cases input with
  | tick => exact absurd rfl hin
  | uplinkDone =>
    simp only [step] at h
    split_ifs at h
    obtain rfl := Option.some.inj h
    exact ⟨rfl, id⟩
  | cancel | grace | closed =>
    simp only [step] at h
    split_ifs at h
    obtain rfl := Option.some.inj h
    rw [become_bridge]
    exact ⟨rfl, id⟩
  | uplink =>
    simp only [step] at h
    split_ifs at h
    obtain rfl := Option.some.inj h
    rw [become_bridge]
    exact onPhoneGone_downlink { s.bridge with uplinkRunning := false }
  | event muted ev =>
    simp only [step] at h
    split_ifs at h
    obtain rfl := Option.some.inj h
    exact onEvent_downlink muted ev s.bridge
  | forwarded =>
    simp only [step] at h
    split at h
    · obtain rfl := Option.some.inj h
      exact ⟨rfl, id⟩
    · cases h
  | phoneSend ok =>
    simp only [step] at h
    split at h
    · obtain rfl := Option.some.inj h
      cases ok with
      | true => exact ⟨rfl, id⟩
      | false =>
        rw [if_neg Bool.false_ne_true, become_bridge]
        exact onPhoneGone_downlink { s.bridge with pc := .select }
    · cases h

end BridgeTask

namespace Egress

def forwardTime : ℕ × EgressAct → Option ℕ
  | (now, .forward _) => some now
  | (_, .bridge _) => none

def forwardTimes (tr : List (ℕ × EgressAct)) : List ℕ := tr.filterMap forwardTime

theorem forwardTimes_concat (tr : List (ℕ × EgressAct)) (x : ℕ × EgressAct) :
    forwardTimes (tr ++ [x]) = forwardTimes tr ++ (forwardTime x).toList := by
  rw [forwardTimes, List.filterMap_append, List.filterMap_cons, List.filterMap_nil]
  cases forwardTime x <;> rfl

/-- The pacer's frames wait their turn. -/
structure Ordered (s : Egress) : Prop where
  read : s.phoneOut.read <+: s.frames.map s.payload
  sent : s.task.running = true → s.phoneOut.sent = s.frames.map s.payload
  down : s.bridge.bridge.downlink.Filtered
  length : ∀ frame ∈ s.frames, frame.pcm8.length = 160

/-- The two clocks, of the pacer and of the forwarder, against the times at which it took its payloads. -/
structure Stamped (pt start : ℕ) (times : List ℕ) (s : Egress) : Prop where
  taken : times.length = s.phoneOut.read.length
  tick : start + 20 * s.frames.length ≤ s.bridge.bridge.nextTick
  clock : s.frames ≠ [] → start + 20 * s.frames.length ≤ s.clock + 20
  due : ∀ k now, times[k]? = some now → start + 20 * k ≤ now
  task : s.task.pt = pt
  media : s.task.mediaTime = times.head?.map fun first => first + 20 * (times.length - 1)
  payloads : s.task.sent.map SendRtpPacket.payload <+: s.phoneOut.read
  all : s.task.running = true → s.task.sent.map SendRtpPacket.payload = s.phoneOut.read
  stamps : ∀ k p, s.task.sent[k]? = some p → p.pt = pt ∧
    ∃ first, times.head? = some first ∧ p.mediaTime = first + 20 * k

variable {g : Option ℕ} {taps : List ℚ} {s s' : Egress} {now : ℕ} {act : EgressAct} {codec : NegotiatedCodec}
  {cfg : QualityConfig} {pt start : ℕ} {times : List ℕ} {tr : List (ℕ × EgressAct)}

inductive Step (g : Option ℕ) (taps : List ℚ) (s : Egress) (now : ℕ) : EgressAct → Egress → Prop
  | tick {bridge : BridgeTask} {frame : Frame} (hb : s.bridge.step g taps (now, .tick) = some bridge)
      (hpc : bridge.bridge.pc = .sending frame) :
      Step g taps s now (.bridge .tick) { s with bridge, frames := s.frames ++ [frame], clock := now
                                                 phoneOut := s.phoneOut.offer [s.payload frame] }
  | phoneSend {bridge : BridgeTask} {phoneOut : Pipe Payload} {ok : Bool}
      (hb : s.bridge.step g taps (now, .phoneSend ok) = some bridge)
      (hread : phoneOut.read = s.phoneOut.read)
      (hsent : s.task.running = true → phoneOut.sent = s.phoneOut.sent) :
      Step g taps s now (.bridge (.phoneSend ok)) { s with bridge, phoneOut, clock := now }
  | bridge {bridge : BridgeTask} {input : BridgeInput} (hb : s.bridge.step g taps (now, input) = some bridge)
      (hin : input ≠ .tick) : Step g taps s now (.bridge input) { s with bridge, clock := now }
  | forward {payload : Payload} {phoneOut : Pipe Payload} {ok : Bool} (hrun : s.task.running = true)
      (hrecv : s.phoneOut.recv = some (payload, phoneOut)) :
      Step g taps s now (.forward ok) { s with phoneOut, task := s.task.forward now payload ok, clock := now }

theorem step_cases (h : s.step g taps (now, act) = some s') : s.clock ≤ now ∧ Step g taps s now act s' := by
  simp only [step] at h
  split_ifs at h with hc
  refine ⟨hc, ?_⟩
  obtain ⟨s₁, hact, rfl⟩ := Option.map_eq_some_iff.mp h
  unfold Egress.act at hact
  split at hact
  · simp only [Option.bind_eq_bind, Option.bind_eq_some_iff] at hact
    obtain ⟨bridge, hb, hact⟩ := hact
    split at hact
    · rename_i frame hpc
      obtain rfl := Option.some.inj hact
      exact .tick hb hpc
    · cases hact
  · simp only [Option.bind_eq_bind, Option.bind_eq_some_iff] at hact
    obtain ⟨phoneOut, hout, bridge, hb, hact⟩ := hact
    split_ifs at hact
    obtain rfl := Option.some.inj hact
    refine .phoneSend hb ?_ fun hrun => ?_
    · split_ifs at hout
      · exact (Pipe.accept_spec hout).2.1
      · exact (Pipe.discard_spec hout).1
    · rw [if_pos hrun] at hout
      exact (Pipe.accept_spec hout).1
  · rename_i htick hsend
    obtain ⟨bridge, hb, rfl⟩ := Option.map_eq_some_iff.mp hact
    exact .bridge hb (by rintro rfl; exact htick rfl)
  · split_ifs at hact with hrun
    simp only [Option.bind_eq_bind, Option.bind_eq_some_iff] at hact
    obtain ⟨⟨payload, phoneOut⟩, hrecv, hact⟩ := hact
    obtain rfl := Option.some.inj hact
    exact .forward hrun hrecv

theorem Ordered.step (o : s.Ordered) (h : Step g taps s now act s') : s'.Ordered := by
  cases h with
  | @tick bridge frame hb hpc =>
    obtain ⟨-, hbridge⟩ := BridgeTask.tick_spec hb
    have hframe : frame.pcm8 = (s.bridge.bridge.downlink.nextFrame taps).1 := by
      rw [hbridge] at hpc
      exact (congrArg Frame.pcm8 (BridgePc.sending.inj hpc)).symm
    have hframes : (s.frames ++ [frame]).map s.payload = s.frames.map s.payload ++ [s.payload frame] :=
      List.map_append
    refine ⟨?_, fun hrun => ?_, ?_, fun f hf => ?_⟩
    · exact o.read.trans (hframes ▸ List.prefix_append _ _)
    · exact (Pipe.sent_offer.trans (by rw [o.sent hrun])).trans hframes.symm
    · change bridge.bridge.downlink.Filtered
      rw [hbridge]
      exact o.down.apply taps .nextFrame
    · rcases List.mem_append.mp hf with hf | hf
      · exact o.length f hf
      · rw [List.mem_singleton.mp hf, hframe]
        exact o.down.length_nextFrame
  | phoneSend hb hread hsent =>
    exact ⟨hread ▸ o.read, fun hrun => (hsent hrun).trans (o.sent hrun),
      (BridgeTask.pace_step hb (fun hh => BridgeInput.noConfusion hh)).2 o.down, o.length⟩
  | bridge hb hin => exact ⟨o.read, o.sent, (BridgeTask.pace_step hb hin).2 o.down, o.length⟩
  | @forward payload phoneOut ok hrun hrecv =>
    obtain ⟨hsent, hread, -, -⟩ := Pipe.recv_spec hrecv
    refine ⟨?_, fun _ => hsent.trans (o.sent hrun), o.down, o.length⟩
    have hall := o.sent hrun
    rw [← hsent, Pipe.sent] at hall
    exact ⟨_, hall⟩

theorem length_read_lt (o : s.Ordered) (hrun : s.task.running = true) {payload : Payload} {phoneOut : Pipe Payload}
    (hrecv : s.phoneOut.recv = some (payload, phoneOut)) : s.phoneOut.read.length < s.frames.length := by
  have hlen := congrArg List.length (o.sent hrun)
  have hq := congrArg List.length (Pipe.recv_spec hrecv).2.2.2
  simp only [Pipe.sent, List.length_append, List.length_map, List.length_cons] at hlen hq
  omega

/-- Media time goes on by a frame a payload, whatever becomes of the send. -/
theorem mediaTime_forward {t : OutTask} {payload : Payload} {ok : Bool}
    (hm : t.mediaTime = times.head?.map fun first => first + 20 * (times.length - 1)) :
    (t.forward now payload ok).mediaTime =
      (times ++ [now]).head?.map fun first => first + 20 * ((times ++ [now]).length - 1) := by
  have hfwd : (t.forward now payload ok).mediaTime = some ((t.mediaTime.map (· + 20)).getD now) := by
    unfold OutTask.forward
    cases t.mediaTime <;> cases ok <;> rfl
  rw [hfwd, hm]
  cases times with
  | nil => rfl
  | cons first times =>
    simp only [List.head?_cons, Option.map_some, Option.getD_some, List.cons_append, List.length_cons,
      List.length_append, List.length_nil]
    congr 1

theorem sent_forward {t : OutTask} (now : ℕ) (payload : Payload) (ok : Bool) (hrun : t.running = true)
    (hm : t.mediaTime = times.head?.map fun first => first + 20 * (times.length - 1)) :
    (t.forward now payload ok).pt = t.pt ∧
      ((t.forward now payload ok).running = true ∧ (∃ p : SendRtpPacket, p.pt = t.pt ∧ p.payload = payload ∧
          (∃ first, (times ++ [now]).head? = some first ∧ p.mediaTime = first + 20 * times.length) ∧
          (t.forward now payload ok).sent = t.sent ++ [p]) ∨
        (t.forward now payload ok).running = false ∧ (t.forward now payload ok).sent = t.sent) := by
  cases ok with
  | false => exact ⟨rfl, Or.inr ⟨rfl, rfl⟩⟩
  | true =>
    refine ⟨rfl, Or.inl ⟨hrun, ⟨_, t.pt, payload⟩, rfl, rfl, ?_, rfl⟩⟩
    cases times with
    | nil => exact ⟨now, rfl, by simp [hm]⟩
    | cons first times =>
      refine ⟨first, rfl, ?_⟩
      simp only [hm, List.head?_cons, Option.map_some, List.length_cons]
      omega

theorem Stamped.step (o : s.Ordered) (t : s.Stamped pt start times) (hle : s.clock ≤ now)
    (h : Step g taps s now act s') : s'.Stamped pt start (times ++ (forwardTime (now, act)).toList) := by
  have hbefore : s.frames ≠ [] → start + 20 * s.frames.length ≤ now + 20 := fun hne => by
    have hclock := t.clock hne
    omega
  cases h with
  | @tick bridge frame hb hpc =>
    obtain ⟨hdue, hbridge⟩ := BridgeTask.tick_spec hb
    have htick := t.tick
    have hnext : bridge.bridge.nextTick = Bridge.rearm s.bridge.bridge.nextTick now := by rw [hbridge]; rfl
    have hrearm : start + 20 * (s.frames.length + 1) ≤ bridge.bridge.nextTick := by
      rw [hnext, Bridge.rearm]
      split_ifs <;> omega
    rw [show times ++ (forwardTime (now, .bridge .tick)).toList = times from List.append_nil _]
    refine ⟨t.taken, ?_, fun _ => ?_, t.due, t.task, t.media, t.payloads, t.all, t.stamps⟩
    · simpa using hrearm
    · simp only [List.length_append, List.length_singleton]
      omega
  | @phoneSend bridge phoneOut ok hb hread hsent =>
    have hpace := (BridgeTask.pace_step hb (fun hh => BridgeInput.noConfusion hh)).1
    rw [show times ++ (forwardTime (now, .bridge (.phoneSend ok))).toList = times from List.append_nil _]
    exact ⟨hread ▸ t.taken, hpace ▸ t.tick, hbefore, t.due, t.task, t.media, hread ▸ t.payloads, hread ▸ t.all,
      t.stamps⟩
  | @bridge bridge input hb hin =>
    rw [show times ++ (forwardTime (now, .bridge input)).toList = times from List.append_nil _]
    exact ⟨t.taken, (BridgeTask.pace_step hb hin).1 ▸ t.tick, hbefore, t.due, t.task, t.media, t.payloads, t.all,
      t.stamps⟩
  | @forward payload phoneOut ok hrun hrecv =>
    obtain ⟨-, hread, -, -⟩ := Pipe.recv_spec hrecv
    have hlt := length_read_lt o hrun hrecv
    have hlen := t.taken
    have hclock := hbefore (by rintro hnil; simp [hnil] at hlt)
    have hhead : ∀ first, times.head? = some first → (times ++ [now]).head? = some first := fun first hf => by
      rw [List.head?_append, hf]
      rfl
    change Stamped pt start (times ++ [now]) _
    obtain ⟨hpt, hsent⟩ := sent_forward now payload ok hrun t.media
    refine ⟨?_, t.tick, fun _ => hclock, fun k due hk => ?_, hpt.trans t.task, mediaTime_forward t.media, ?_, ?_, ?_⟩
    · rw [hread, List.length_append, List.length_append, hlen]
      rfl
    · rcases Nat.lt_or_ge k times.length with hkl | hkl
      · rw [List.getElem?_append_left hkl] at hk
        exact t.due k due hk
      · rw [List.getElem?_append_right hkl, List.getElem?_singleton] at hk
        split_ifs at hk with hk0
        obtain rfl := Option.some.inj hk
        omega
    · rcases hsent with ⟨-, p, -, rfl, -, hs⟩ | ⟨-, hs⟩
      · rw [hs, List.map_append, t.all hrun, hread]
        exact List.prefix_rfl
      · rw [hs, hread]
        exact t.payloads.trans (List.prefix_append _ _)
    · intro hrun'
      rcases hsent with ⟨-, p, -, rfl, -, hs⟩ | ⟨hstop, -⟩
      · rw [hs, List.map_append, t.all hrun, hread]
        rfl
      · simp [hstop] at hrun'
    · intro k q hq
      have hsentlen : s.task.sent.length = times.length := by
        rw [hlen, ← t.all hrun, List.length_map]
      have hold : ∀ k q, s.task.sent[k]? = some q → q.pt = pt ∧
          ∃ first, (times ++ [now]).head? = some first ∧ q.mediaTime = first + 20 * k := fun k q hq => by
        obtain ⟨hqpt, first, hf, hmt⟩ := t.stamps k q hq
        exact ⟨hqpt, first, hhead first hf, hmt⟩
      rcases hsent with ⟨-, p, hppt, -, ⟨first, hf, hmt⟩, hs⟩ | ⟨-, hs⟩
      · rw [hs] at hq
        rcases Nat.lt_or_ge k s.task.sent.length with hkl | hkl
        · rw [List.getElem?_append_left hkl] at hq
          exact hold k q hq
        · rw [List.getElem?_append_right hkl, List.getElem?_singleton] at hq
          split_ifs at hq with hk0
          obtain rfl := Option.some.inj hq
          obtain rfl : k = times.length := by omega
          exact ⟨hppt.trans t.task, first, hf, hmt⟩
      · rw [hs] at hq
        exact hold k q hq

theorem kept_of_run (h : Run (step g taps) Always (init codec cfg start) tr s) :
    s.Ordered ∧ s.Stamped codec.pt start (forwardTimes tr) ∧ s.codec = codec.kind := by
  refine h.trace_invariant
    (I := fun tr s => s.Ordered ∧ s.Stamped codec.pt start (forwardTimes tr) ∧ s.codec = codec.kind) ?_ ?_
  · refine ⟨⟨List.prefix_rfl, fun _ => rfl, ⟨[], rfl⟩, fun _ hf => by cases hf⟩, ?_, rfl⟩
    exact ⟨rfl, Nat.le_refl _, fun hne => absurd rfl hne, fun _ _ hk => by simp [forwardTimes] at hk, rfl, rfl,
      List.prefix_rfl, fun _ => rfl, fun _ _ hk => by simp [init] at hk⟩
  · rintro tr s ⟨now, act⟩ s' ⟨o, t, hcodec⟩ - hs
    obtain ⟨hle, hstep⟩ := step_cases hs
    refine ⟨o.step hstep, forwardTimes_concat tr (now, act) ▸ t.step o hle hstep, ?_⟩
    cases hstep <;> exact hcodec

/-- In any run of the bridge, its pacer and the forwarder, what is sent to the phone is the pacer's frames in
order, each of 160 bytes, and nothing is lost while the forwarder runs. The packet with the number `k` is stamped
`k` frames after the moment the first was taken, and so runs ahead of the time it is taken itself by no more than
the first was late. -/
theorem egress_paced (h : Run (step g taps) Always (init codec cfg start) tr s) :
    s.task.sent.map SendRtpPacket.payload <+: s.frames.map (fun frame => encode codec.kind frame.pcm8) ∧
      (∀ p ∈ s.task.sent, p.payload.length = 160) ∧
      (s.task.running = true → s.task.sent.map SendRtpPacket.payload ++ (s.phoneOut.queued ++ s.phoneOut.waiting) =
        s.frames.map fun frame => encode codec.kind frame.pcm8) ∧
      ∀ k p, s.task.sent[k]? = some p → p.pt = codec.pt ∧
        ∃ first now, (forwardTimes tr).head? = some first ∧ (forwardTimes tr)[k]? = some now ∧
          p.mediaTime = first + 20 * k ∧ p.mediaTime - now ≤ first - start := by
  obtain ⟨o, t, hcodec⟩ := kept_of_run h
  have hpayload : s.payload = fun frame => encode codec.kind frame.pcm8 := by
    funext frame
    rw [payload, hcodec]
  have hpre := t.payloads.trans o.read
  rw [← hpayload]
  refine ⟨hpre, fun p hp => ?_, fun hrun => ?_, fun k p hk => ?_⟩
  · obtain ⟨frame, hframe, heq⟩ := List.mem_map.mp (hpre.subset (List.mem_map_of_mem hp))
    rw [← heq, payload, encode, List.length_map, o.length frame hframe]
  · rw [t.all hrun]
    exact o.sent hrun
  · obtain ⟨hpt, first, hfirst, hmedia⟩ := t.stamps k p hk
    have hlt : k < (forwardTimes tr).length := by
      have hkl := (List.getElem?_eq_some_iff.mp hk).1
      have hle := t.payloads.length_le
      rw [List.length_map, ← t.taken] at hle
      omega
    have hnow := List.getElem?_eq_getElem hlt
    have hdue := t.due k _ hnow
    exact ⟨hpt, first, _, hfirst, hnow, hmedia, by omega⟩

/-- A first frame that is taken 3 ms late. -/
theorem egress_paced_late : ∃ (s : Egress) (p : SendRtpPacket) (now : ℕ), s.task.sent[0]? = some p ∧
    p.payload.length = 160 ∧ p.mediaTime - now ≤ 3 - 0 := by
  have hlate : ∃ s, Run (step none []) Always (init ⟨0, .ulaw, 20⟩ {} 0)
      [(0, .bridge .tick), (0, .bridge (.phoneSend true)), (3, .forward true)] s ∧ ∃ p, s.task.sent[0]? = some p :=
    ⟨_, run_of_exec rfl, _, rfl⟩
  obtain ⟨s, hrun, p, hp⟩ := hlate
  obtain ⟨-, hlen, -, hstamp⟩ := egress_paced hrun
  obtain ⟨-, first, now, hfirst, -, -, hahead⟩ := hstamp 0 p hp
  obtain rfl := Option.some.inj hfirst
  exact ⟨s, p, now, hp, hlen p (List.mem_of_getElem? hp), hahead⟩

end Egress

end Kutsu
