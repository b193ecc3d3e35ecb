import Kutsu.Lib.Run
import Kutsu.Model.Ingress
import Kutsu.Proofs.Uplink

/-! What the model hears of the callee: the packets' payloads in the order of their arrival, less those that found
the bridge behind, each levelled out by one gain control and upsampled without losing a sample. -/

namespace Kutsu

open Pipes Runs

section Upsampling

/-- Every other sample, from the first on. -/
def evens {α : Type*} : List α → List α
  | [] => []
  | [a] => [a]
  | a :: _ :: l => a :: evens l

theorem length_up8k16k (pcm : List Sample) : (up8k16k pcm).length = 2 * pcm.length := by
  induction pcm with
  | nil => rfl
  | cons cur rest ih =>
    simp only [up8k16k, List.length_cons, ih]
    omega

theorem evens_up8k16k_append (pcm l : List Sample) : evens (up8k16k pcm ++ l) = pcm ++ evens l := by
  induction pcm with
  | nil => rfl
  | cons cur rest ih => simp only [up8k16k, List.cons_append, evens, ih]

theorem evens_flatMap (blocks : List (List Sample)) : evens (blocks.flatMap up8k16k) = blocks.flatten := by
  induction blocks with
  | nil => rfl
  | cons pcm blocks ih => rw [List.flatMap_cons, List.flatten_cons, evens_up8k16k_append, ih]

theorem mean_mem_Icc {lo hi a b : ℤ} (ha : lo ≤ a ∧ a ≤ hi) (hb : lo ≤ b ∧ b ≤ hi) :
    lo ≤ (a + b).tdiv 2 ∧ (a + b).tdiv 2 ≤ hi := by
  rw [Int.tdiv_eq_ediv, show Int.sign 2 = 1 from rfl]
  split_ifs <;> omega

theorem up8k16k_mem_Icc {lo hi : ℤ} {pcm : List Sample} (h : ∀ v ∈ pcm, lo ≤ v ∧ v ≤ hi) :
    ∀ v ∈ up8k16k pcm, lo ≤ v ∧ v ≤ hi := by
  induction pcm with
  | nil => exact fun v hv => by cases hv
  | cons cur rest ih =>
    have hcur := h cur List.mem_cons_self
    have hnext : lo ≤ rest.headD cur ∧ rest.headD cur ≤ hi := by
      cases rest with
      | nil => exact hcur
      | cons next rest => exact h next (List.mem_cons_of_mem _ List.mem_cons_self)
    intro v hv
    simp only [up8k16k, List.mem_cons] at hv
    rcases hv with rfl | rfl | hv
    · exact hcur
    · exact mean_mem_Icc hcur hnext
    · exact ih (fun w hw => h w (List.mem_cons_of_mem _ hw)) v hv

/-- Where two blocks meet, the sample between them is held and not interpolated. -/
theorem up8k16k_append (a : List Sample) (last next : Sample) (b : List Sample) :
    up8k16k (a ++ last :: next :: b) =
      (up8k16k (a ++ [last])).set (2 * a.length + 1) ((last + next).tdiv 2) ++ up8k16k (next :: b) := by
  induction a with
  | nil => rfl
  | cons cur rest ih =>
    have hhead : (rest ++ last :: next :: b).headD cur = (rest ++ [last]).headD cur := by cases rest <;> rfl
    simp only [List.cons_append, up8k16k, hhead, List.length_cons]
    rw [show 2 * (rest.length + 1) + 1 = 2 * rest.length + 1 + 1 + 1 by omega, List.set_cons_succ,
      List.set_cons_succ, List.cons_append, List.cons_append, ih]
    rfl

/-- Block by block, the upsampler doubles the rate and loses nothing: every other sample of its output is
the input, the others stay within any bounds of the input, and only the last of a block differs from the
upsampling of the whole. -/
theorem up8k16k_lossless (blocks : List (List Sample)) :
    (blocks.flatMap up8k16k).length = 2 * blocks.flatten.length ∧
      evens (blocks.flatMap up8k16k) = blocks.flatten ∧
      (∀ lo hi : ℤ, (∀ v ∈ blocks.flatten, lo ≤ v ∧ v ≤ hi) → ∀ v ∈ blocks.flatMap up8k16k, lo ≤ v ∧ v ≤ hi) ∧
      ∀ (a b : List Sample) (last next : Sample), up8k16k (a ++ last :: next :: b) =
        (up8k16k (a ++ [last])).set (2 * a.length + 1) ((last + next).tdiv 2) ++ up8k16k (next :: b) := by
  refine ⟨?_, evens_flatMap blocks, fun lo hi h v hv => ?_, fun a b last next => up8k16k_append a last next b⟩
  · induction blocks with
    | nil => rfl
    | cons pcm blocks ih =>
      rw [List.flatMap_cons, List.flatten_cons, List.length_append, List.length_append, length_up8k16k, ih]
      omega
  · obtain ⟨pcm, hpcm, hv⟩ := List.mem_flatMap.mp hv
    exact up8k16k_mem_Icc (fun w hw => h w (List.mem_flatten.mpr ⟨pcm, hpcm, hw⟩)) v hv

end Upsampling

section Level

theorem UplinkLevel.foldl_add (l : UplinkLevel) (frames : List (List Sample)) : frames.foldl UplinkLevel.add l =
    ⟨l.sumsq + (frames.flatten.map fun s : Sample => s.natAbs * s.natAbs).sum, l.samples + frames.flatten.length⟩ := by
  induction frames generalizing l with
  | nil => rfl
  | cons pcm frames ih =>
    rw [List.foldl_cons, ih]
    simp only [UplinkLevel.add, List.flatten_cons, List.map_append, List.sum_append, List.length_append,
      Nat.add_assoc]

theorem sum_mem_Icc {lo hi : ℕ} {l : List ℕ} (h : ∀ n ∈ l, lo ≤ n ∧ n ≤ hi) :
    lo * l.length ≤ l.sum ∧ l.sum ≤ hi * l.length := by
  induction l with
  | nil => simp
  | cons n l ih =>
    obtain ⟨hlo, hhi⟩ := h n List.mem_cons_self
    obtain ⟨ihlo, ihhi⟩ := ih fun m hm => h m (List.mem_cons_of_mem _ hm)
    simp only [List.sum_cons, List.length_cons, Nat.mul_add, Nat.mul_one]
    omega

/-- The level lies between the quietest and the loudest sample; there is none before the first. -/
theorem UplinkLevel.rms_mem_Icc {lo hi : ℕ} {frames : List (List Sample)} (hne : frames.flatten ≠ [])
    (h : ∀ s ∈ frames.flatten, lo ≤ s.natAbs ∧ s.natAbs ≤ hi) :
    lo ≤ (frames.foldl UplinkLevel.add {}).rms ∧ (frames.foldl UplinkLevel.add {}).rms ≤ hi := by
  have hpos : 0 < frames.flatten.length := List.length_pos_iff.mpr hne
  have hsq : ∀ n ∈ frames.flatten.map fun s : Sample => s.natAbs * s.natAbs, lo * lo ≤ n ∧ n ≤ hi * hi := by
    intro n hn
    obtain ⟨s, hs, rfl⟩ := List.mem_map.mp hn
    obtain ⟨hlo, hhi⟩ := h s hs
    exact ⟨Nat.mul_le_mul hlo hlo, Nat.mul_le_mul hhi hhi⟩
  obtain ⟨hlo, hhi⟩ := sum_mem_Icc hsq
  rw [List.length_map] at hlo hhi
  rw [UplinkLevel.foldl_add, UplinkLevel.rms]
  simp only [Nat.zero_add]
  rw [if_neg (Nat.ne_of_gt hpos)]
  have hmean : (frames.flatten.map fun s : Sample => s.natAbs * s.natAbs).sum / frames.flatten.length ≤ hi * hi :=
    Nat.div_le_of_le_mul (by rw [Nat.mul_comm]; exact hhi)
  refine ⟨Nat.le_sqrt.mpr ((Nat.le_div_iff_mul_le hpos).mpr hlo), Nat.le_of_lt_succ (Nat.sqrt_lt.mpr ?_)⟩
  exact Nat.lt_of_le_of_lt hmean (Nat.mul_self_lt_mul_self (Nat.lt_succ_self hi))

end Level

namespace UplinkStats

theorem received_observe {s : UplinkStats} (hs : s.started = true) (seq : UInt16) :
    (s.observe seq).received = s.received + 1 := by
  rcases forward_cases s seq with h | ⟨hpos, hlt⟩ | hge
  · rw [observe_same hs h]
  · rw [observe_forward hs hpos hlt]
  · rw [observe_behind hs hge]

theorem received_observeAll (seqs : List UInt16) : (new.observeAll seqs).snapshot.received = seqs.length := by
  have hstarted : ∀ (seqs : List UInt16) (s : UplinkStats), s.started = true →
      (s.observeAll seqs).started = true ∧ (s.observeAll seqs).received = s.received + seqs.length := by
    intro seqs
    induction seqs with
    | nil => exact fun s hs => ⟨hs, rfl⟩
    | cons seq seqs ih =>
      intro s hs
      obtain ⟨hs', hr⟩ := ih (s.observe seq) started_observe
      rw [received_observe hs seq] at hr
      exact ⟨hs', hr.trans (by rw [List.length_cons]; omega)⟩
  cases seqs with
  | nil => rfl
  | cons seq seqs =>
    obtain ⟨hs, hr⟩ := hstarted seqs (new.observe seq) started_observe
    change ((new.observe seq).observeAll seqs).snapshot.received = seqs.length + 1
    rw [snapshot, hs]
    exact hr.trans (Nat.add_comm 1 _)

end UplinkStats

namespace SipCall

variable {c c' : SipCall} {now : ℕ} {input : CallInput}

def Past (c : SipCall) : Prop :=
  match c.pc with
  | .live | .hangingUp | .terminating _ | .bye | .returned => True
  | _ => False

inductive RecvStep (c : SipCall) : CallInput → SipCall → Prop
  | received {t : InTask} {packet : RtpPacket} (ht : c.inTask = some t) (hrun : t.running = true) :
      RecvStep c (.received packet)
        { c with inTask := some { t with stats := t.stats.observe packet.sequenceNumber }
                 uplink := (t.stats.observe packet.sequenceNumber).snapshot
                 rtpIn := c.rtpIn.trySend RTP_CAPACITY packet.payload }
  | other {input : CallInput} {c' : SipCall} (hin : ∀ packet, input ≠ .received packet)
      (hrtp : c'.rtpIn = c.rtpIn) (hup : c'.uplink = c.uplink)
      (htask : c'.inTask.map InTask.stats = c.inTask.map InTask.stats ∨
        ¬ c.Past ∧ c'.inTask.map InTask.stats = some UplinkStats.new)
      (hpast : c.Past → c'.Past) (hnew : c'.inTask.isSome = true → c.inTask.isSome = true ∨ c'.Past) :
      RecvStep c input c'

structure Untouched (c c' : SipCall) : Prop where
  rtpIn : c'.rtpIn = c.rtpIn
  uplink : c'.uplink = c.uplink
  task : c'.inTask.map InTask.stats = c.inTask.map InTask.stats
  past : c.Past → c'.Past

theorem untouched_leave {reason : TermReason} : Untouched c (c.leave reason) := by
  refine ⟨rfl, rfl, ?_, fun _ => trivial⟩
  simp only [leave, terminate, Option.map_map]
  rfl

theorem untouched_terminate {reason : TermReason} {bye : Bool} : Untouched c (c.terminate reason bye) :=
  ⟨rfl, rfl, rfl, fun _ => trivial⟩

theorem untouched_negotiated {sender : Option NegotiatedCodec} {receiver : Bool} {deadline : ℕ} (hpast : ¬ c.Past) :
    Untouched c (c.negotiated sender receiver deadline) := by
  unfold negotiated
  split <;> exact ⟨rfl, rfl, rfl, fun h => absurd h hpast⟩

theorem advance_untouched (h : c.advance now input = some c') : Untouched c c' := by
  unfold advance at h
  split at h
  case h_26 => cases h
  all_goals rename_i hpc
  case h_11 | h_18 =>
    split_ifs at h
    all_goals obtain rfl := Option.some.inj h
    · exact ⟨rfl, rfl, rfl, id⟩
    · first | exact untouched_terminate | exact untouched_leave
  case h_16 =>
    split_ifs at h
    obtain rfl := Option.some.inj h
    exact untouched_terminate
  all_goals obtain rfl := Option.some.inj h
  case h_12 | h_13 => exact untouched_negotiated (by simp [Past, hpc])
  case h_14 | h_15 => exact untouched_terminate
  case h_21 | h_22 | h_24 => exact untouched_leave
  case h_17 | h_19 | h_20 => exact ⟨rfl, rfl, rfl, id⟩
  case h_1 | h_3 | h_6 | h_7 | h_8 | h_23 | h_25 => exact ⟨rfl, rfl, rfl, fun _ => trivial⟩
  all_goals exact ⟨rfl, rfl, rfl, fun hp => by simp [Past, hpc] at hp⟩

theorem recv_step (h : c.step (now, input) = some c') : RecvStep c input c' := by
  cases input with
  | received packet =>
    change c.received packet = some c' at h
    simp only [received, Option.bind_eq_bind, Option.bind_eq_some_iff] at h
    obtain ⟨t, ht, h⟩ := h
    split_ifs at h with hrun
    obtain rfl := Option.some.inj h
    exact .received ht hrun
  | forward ok =>
    change c.forward now ok = some c' at h
    simp only [forward, Option.bind_eq_bind, Option.bind_eq_some_iff] at h
    obtain ⟨t, ht, h⟩ := h
    split_ifs at h with hrun
    simp only [Option.bind_eq_some_iff] at h
    obtain ⟨⟨payload, rtpOut⟩, -, h⟩ := h
    obtain rfl := Option.some.inj h
    exact .other (fun _ hh => by cases hh) rfl rfl (Or.inl rfl) id Or.inl
  | fed payload =>
    simp only [step] at h
    split_ifs at h
    obtain rfl := Option.some.inj h
    exact .other (fun _ hh => by cases hh) rfl rfl (Or.inl rfl) id Or.inl
  | eventsDropped =>
    obtain rfl := Option.some.inj h
    exact .other (fun _ hh => by cases hh) rfl rfl (Or.inl rfl) id Or.inl
  | eventSent =>
    change c.eventSent = some c' at h
    simp only [eventSent, Option.bind_eq_bind, Option.bind_eq_some_iff] at h
    obtain ⟨events, -, h⟩ := h
    split at h
    · rename_i codec hpc
      obtain rfl := Option.some.inj h
      refine .other (fun _ hh => by cases hh) rfl rfl (Or.inr ⟨?_, rfl⟩) (fun _ => trivial) fun _ => Or.inr trivial
      simp [Past, hpc]
    · obtain rfl := Option.some.inj h
      exact .other (fun _ hh => by cases hh) rfl rfl (Or.inl rfl) (fun _ => trivial) Or.inl
    · obtain rfl := Option.some.inj h
      exact .other (fun _ hh => by cases hh) rfl rfl (Or.inl rfl) (fun _ => trivial) Or.inl
    · cases h
  | _ =>
    have hu : Untouched c c' := advance_untouched h
    refine .other (fun _ hh => by cases hh) hu.rtpIn hu.uplink (Or.inl hu.task) hu.past fun hsome => Or.inl ?_
    rw [← Option.isSome_map (f := InTask.stats), ← hu.task, Option.isSome_map]
    exact hsome

end SipCall

def IngressAct.arrives : IngressAct → Bool
  | .sip _ (.received _) => true
  | _ => false

namespace Ingress

variable {K : Type*} [Field K] [LinearOrder K] [FloorRing K] {sqrt exp10 : K → K}

def arrivals (tr : List IngressAct) : List RtpPacket :=
  tr.filterMap fun act => match act with
    | .sip _ (.received packet) => some packet
    | _ => none

/-- A gain control that has gone over some payloads, and the frames it has made of them. -/
def levelled (sqrt : K → K) (codec : G711Kind) (agc : Agc K) (payloads : List Payload) : Agc K × List (List Sample) :=
  payloads.foldl (fun r payload =>
    ((r.1.process sqrt (decode codec payload)).2, r.2 ++ [(r.1.process sqrt (decode codec payload)).1])) (agc, [])

theorem levelled_concat (sqrt : K → K) (codec : G711Kind) (agc : Agc K) (payloads : List Payload) (payload : Payload) :
    levelled sqrt codec agc (payloads ++ [payload]) =
      (((levelled sqrt codec agc payloads).1.process sqrt (decode codec payload)).2,
        (levelled sqrt codec agc payloads).2 ++
          [((levelled sqrt codec agc payloads).1.process sqrt (decode codec payload)).1]) := by
  simp only [levelled, List.foldl_append, List.foldl_cons, List.foldl_nil]

/-- The bridge keeps up: a packet that arrives finds room. -/
def KeepsUp (s : Ingress K) (act : IngressAct) : Prop :=
  act.arrives = true → s.call.rtpIn.queued.length < RTP_CAPACITY

instance (s : Ingress K) (act : IngressAct) : Decidable (s.KeepsUp act) := inferInstanceAs (Decidable (_ → _))

structure Received (packets : List RtpPacket) (c : SipCall) : Prop where
  unsent : c.rtpIn.waiting = []
  kept : c.rtpIn.sent.Sublist (packets.map RtpPacket.payload)
  stats : c.inTask = none ∧ packets = [] ∨ c.Past ∧
    c.inTask.map InTask.stats = some (UplinkStats.new.observeAll (packets.map RtpPacket.sequenceNumber))
  uplink : c.uplink = (UplinkStats.new.observeAll (packets.map RtpPacket.sequenceNumber)).snapshot

structure Levelled (sqrt : K → K) (codec : G711Kind) (agc : Agc K) (s : Ingress K) : Prop where
  kind : s.codec = codec
  gain : s.agc = (levelled sqrt codec agc s.call.rtpIn.read).1
  level : s.level = (levelled sqrt codec agc s.call.rtpIn.read).2.foldl UplinkLevel.add {}
  one : s.geminiIn.waiting.length ≤ 1
  sent : s.geminiIn.sent <+: (levelled sqrt codec agc s.call.rtpIn.read).2.map up8k16k
  all : s.running = true → s.geminiIn.sent = (levelled sqrt codec agc s.call.rtpIn.read).2.map up8k16k

variable {codec : G711Kind} {agc : Agc K} {tr : List IngressAct} {s s' : Ingress K} {act : IngressAct}

inductive Step (sqrt : K → K) (s : Ingress K) : IngressAct → Ingress K → Prop
  | sip {now : ℕ} {input : CallInput} {call : SipCall} (h : SipCall.RecvStep s.call input call) :
      Step sqrt s (.sip now input) { s with call }
  | payload {payload : Payload} {rtpIn : Pipe Payload} (hrun : s.running = true) (hw : s.geminiIn.waiting = [])
      (hrecv : s.call.rtpIn.recv = some (payload, rtpIn)) :
      Step sqrt s .payload { s.uplink sqrt payload with call := { s.call with rtpIn } }
  | sent {geminiIn : Pipe (List Sample)} (h : s.geminiIn.accept GEMINI_IN_CAPACITY = some geminiIn) :
      Step sqrt s (.sent true) { s with geminiIn }
  | refused {geminiIn : Pipe (List Sample)} (h : s.geminiIn.discard = some geminiIn) :
      Step sqrt s (.sent false) { s with geminiIn, running := false }
  | heard {frame : List Sample} {geminiIn : Pipe (List Sample)} (h : s.geminiIn.recv = some (frame, geminiIn)) :
      Step sqrt s .heard { s with geminiIn }

theorem step_cases (h : s.step sqrt act = some s') : Step sqrt s act s' := by
  unfold step at h
  split at h
  · obtain ⟨call, hcall, rfl⟩ := Option.map_eq_some_iff.mp h
    exact .sip (SipCall.recv_step hcall)
  · split_ifs at h with hc
    obtain ⟨hrun, hw⟩ := Bool.and_eq_true_iff.mp hc
    obtain ⟨⟨payload, rtpIn⟩, hrecv, rfl⟩ := Option.map_eq_some_iff.mp h
    exact .payload hrun (List.isEmpty_iff.mp hw) hrecv
  · obtain ⟨geminiIn, hg, rfl⟩ := Option.map_eq_some_iff.mp h
    exact .sent hg
  · obtain ⟨geminiIn, hg, rfl⟩ := Option.map_eq_some_iff.mp h
    exact .refused hg
  · obtain ⟨⟨frame, geminiIn⟩, hg, rfl⟩ := Option.map_eq_some_iff.mp h
    exact .heard hg

theorem trySend_spec (cap : ℕ) (p : Pipe Payload) (x : Payload) (hw : p.waiting = []) :
    (p.trySend cap x).waiting = [] ∧ (p.trySend cap x).read = p.read ∧
      (p.trySend cap x).sent = if p.queued.length < cap then p.sent ++ [x] else p.sent := by
  unfold Pipe.trySend
  split_ifs
  · exact ⟨hw, rfl, by simp [Pipe.sent, hw]⟩
  · exact ⟨hw, rfl, rfl⟩

variable {packets : List RtpPacket} {c c' : SipCall} {input : CallInput}

theorem Received.arrival {t : InTask} {packet : RtpPacket} (r : Received packets c) (ht : c.inTask = some t) :
    Received (packets ++ [packet])
      { c with inTask := some { t with stats := t.stats.observe packet.sequenceNumber }
               uplink := (t.stats.observe packet.sequenceNumber).snapshot
               rtpIn := c.rtpIn.trySend RTP_CAPACITY packet.payload } := by
  obtain ⟨hw, -, hsent⟩ := trySend_spec RTP_CAPACITY c.rtpIn packet.payload r.unsent
  have hstats : c.Past ∧ t.stats = UplinkStats.new.observeAll (packets.map RtpPacket.sequenceNumber) := by
    rcases r.stats with ⟨hnone, -⟩ | ⟨hpast, hs⟩
    · simp [ht] at hnone
    · rw [ht] at hs
      exact ⟨hpast, Option.some.inj hs⟩
  have hobs : t.stats.observe packet.sequenceNumber =
      UplinkStats.new.observeAll ((packets ++ [packet]).map RtpPacket.sequenceNumber) := by
    rw [hstats.2, List.map_append, UplinkStats.observeAll, UplinkStats.observeAll, List.foldl_append]
    rfl
  refine ⟨hw, ?_, Or.inr ⟨hstats.1, congrArg some hobs⟩, congrArg UplinkStats.snapshot hobs⟩
  rw [List.map_append, hsent]
  split_ifs
  · exact r.kept.append_right _
  · exact r.kept.trans (List.sublist_append_left _ _)

theorem Received.same (r : Received packets c) (hrtp : c'.rtpIn = c.rtpIn) (hup : c'.uplink = c.uplink)
    (htask : c'.inTask.map InTask.stats = c.inTask.map InTask.stats ∨
      ¬ c.Past ∧ c'.inTask.map InTask.stats = some UplinkStats.new)
    (hpast : c.Past → c'.Past) (hnew : c'.inTask.isSome = true → c.inTask.isSome = true ∨ c'.Past) :
    Received packets c' := by
  refine ⟨hrtp ▸ r.unsent, hrtp ▸ r.kept, ?_, hup.trans r.uplink⟩
  rcases r.stats with ⟨hnone, hno⟩ | ⟨hp, hs⟩
  · rcases htask with hsame | ⟨-, hfresh⟩
    · rw [hnone, Option.map_none, Option.map_eq_none_iff] at hsame
      exact Or.inl ⟨hsame, hno⟩
    · refine Or.inr ⟨?_, by rw [hfresh, hno]; rfl⟩
      have hsome : c'.inTask.isSome = true := by
        rw [← Option.isSome_map (f := InTask.stats), hfresh]
        rfl
      rcases hnew hsome with hold | hp
      · simp [hnone] at hold
      · exact hp
  · rcases htask with hsame | ⟨hno, -⟩
    · exact Or.inr ⟨hpast hp, hsame.trans hs⟩
    · exact absurd hp hno

theorem Received.step (r : Received packets s.call) (h : Step sqrt s act s') :
    Received (packets ++ arrivals [act]) s'.call := by
  cases h with
  | @sip now input call h =>
    cases h with
    | received ht hrun => exact r.arrival ht
    | other hin hrtp hup htask hpast hnew =>
      have hnone : arrivals [.sip now input] = [] := by
        cases input with
        | received packet => exact absurd rfl (hin packet)
        | _ => rfl
      rw [hnone, List.append_nil]
      exact r.same hrtp hup htask hpast hnew
  | payload hrun hw hrecv =>
    obtain ⟨hsent, -, hw', -⟩ := Pipe.recv_spec hrecv
    rw [show arrivals [.payload] = [] from rfl, List.append_nil]
    exact ⟨hw'.trans r.unsent, hsent ▸ r.kept, r.stats, r.uplink⟩
  | sent h | refused h | heard h => simpa [arrivals] using r

theorem read_recvStep (hw : c.rtpIn.waiting = []) (h : SipCall.RecvStep c input c') :
    c'.rtpIn.read = c.rtpIn.read := by
  cases h with
  | @received t packet ht hrun => exact (trySend_spec _ c.rtpIn packet.payload hw).2.1
  | other hin hrtp => rw [hrtp]

theorem Levelled.step (l : Levelled sqrt codec agc s) (hw : s.call.rtpIn.waiting = []) (h : Step sqrt s act s') :
    Levelled sqrt codec agc s' := by
  cases h with
  | sip h =>
    have hread := read_recvStep hw h
    exact ⟨l.kind, hread ▸ l.gain, hread ▸ l.level, l.one, hread ▸ l.sent, hread ▸ l.all⟩
  | @payload payload rtpIn hrun hidle hrecv =>
    obtain rfl := l.kind
    have hlev := levelled_concat sqrt s.codec agc s.call.rtpIn.read payload
    rw [← (Pipe.recv_spec hrecv).2.1, ← l.gain] at hlev
    have hsent : (s.uplink sqrt payload).geminiIn.sent = (levelled sqrt s.codec agc rtpIn.read).2.map up8k16k := by
      rw [hlev, List.map_append, ← l.all hrun]
      exact Pipe.sent_offer
    refine ⟨rfl, congrArg Prod.fst hlev.symm, ?_, ?_, hsent ▸ List.prefix_rfl, fun _ => hsent⟩
    · change s.level.add _ = (levelled sqrt s.codec agc rtpIn.read).2.foldl UplinkLevel.add {}
      rw [hlev, List.foldl_append, ← l.level]
      rfl
    · change (s.geminiIn.waiting ++ [_]).length ≤ 1
      rw [hidle]
      exact Nat.le_refl 1
  | sent h =>
    obtain ⟨hsent, -, frame, hwait, -⟩ := Pipe.accept_spec h
    have hone := l.one
    rw [hwait, List.length_cons] at hone
    exact ⟨l.kind, l.gain, l.level, Nat.le_of_succ_le hone, hsent ▸ l.sent, fun hrun => hsent ▸ l.all hrun⟩
  | refused h =>
    obtain ⟨hread, hqueued, htail⟩ := Pipe.discard_spec h
    refine ⟨l.kind, l.gain, l.level, ?_, ?_, fun hrun => Bool.noConfusion hrun⟩
    · rw [htail, List.length_tail]
      exact (Nat.sub_le _ _).trans l.one
    · have hnil : s.geminiIn.waiting.tail = [] := by
        rw [← List.length_eq_zero_iff, List.length_tail]
        have hone := l.one
        omega
      refine List.IsPrefix.trans ?_ l.sent
      simp only [Pipe.sent, hread, hqueued, htail, hnil, List.append_nil]
      exact (List.prefix_append_right_inj _).mpr (List.prefix_append _ _)
  | heard h =>
    obtain ⟨hsent, -, hwait, -⟩ := Pipe.recv_spec h
    exact ⟨l.kind, l.gain, l.level, hwait ▸ l.one, hsent ▸ l.sent, fun hrun => hsent ▸ l.all hrun⟩

theorem length_process (a : Agc K) (frame : List Sample) : (a.process sqrt frame).1.length = frame.length := by
  unfold Agc.process
  split_ifs
  · rfl
  · dsimp only
    split_ifs
    · rfl
    · rw [List.length_map]

theorem lengths_levelled (codec : G711Kind) (agc : Agc K) (payloads : List Payload) :
    (levelled sqrt codec agc payloads).2.map List.length = payloads.map List.length := by
  induction payloads using List.reverseRecOn with
  | nil => rfl
  | append_singleton payloads payload ih =>
    rw [levelled_concat, List.map_append, List.map_append, ih]
    simp only [List.map_cons, List.map_nil, length_process, decode, List.length_map]

variable {callId : String} {cfg : AgcConfig} {ok : Ingress K → IngressAct → Prop}

theorem kept_of_run (h : Run (step sqrt) ok (init exp10 callId codec cfg) tr s) :
    Received (arrivals tr) s.call ∧ Levelled sqrt codec (Agc.new exp10 cfg) s := by
  refine h.trace_invariant
    (I := fun tr s => Received (arrivals tr) s.call ∧ Levelled sqrt codec (Agc.new exp10 cfg) s) ?_ ?_
  · exact ⟨⟨rfl, List.Sublist.refl _, Or.inl ⟨rfl, rfl⟩, rfl⟩,
      ⟨rfl, rfl, rfl, Nat.zero_le _, List.prefix_rfl, fun _ => rfl⟩⟩
  · rintro tr s act s' ⟨r, l⟩ - hs
    have hstep := step_cases hs
    refine ⟨?_, l.step r.unsent hstep⟩
    rw [arrivals, List.filterMap_append]
    exact r.step hstep

theorem sent_of_keepsUp (h : Run (step sqrt) KeepsUp (init exp10 callId codec cfg) tr s) :
    s.call.rtpIn.sent = (arrivals tr).map RtpPacket.payload := by
  induction h with
  | nil => rfl
  | @snoc tr s s' act hrun hok hs ih =>
    have hw := (kept_of_run hrun).1.unsent
    rw [arrivals, List.filterMap_append, List.map_append]
    change _ = (arrivals tr).map RtpPacket.payload ++ (arrivals [act]).map RtpPacket.payload
    rw [← ih]
    cases step_cases hs with
    | @sip now input call h =>
      cases h with
      | @received t packet ht hr =>
        have hroom : s.call.rtpIn.queued.length < RTP_CAPACITY := hok rfl
        exact (trySend_spec _ s.call.rtpIn packet.payload hw).2.2.trans (if_pos hroom)
      | other hin hrtp hup htask hpast hnew =>
        have hnone : arrivals [.sip now input] = [] := by
          cases input with
          | received packet => exact absurd rfl (hin packet)
          | _ => rfl
        rw [hnone]
        exact (congrArg Pipe.sent hrtp).trans (List.append_nil _).symm
    | payload hrun hidle hrecv => exact (Pipe.recv_spec hrecv).1.trans (List.append_nil _).symm
    | sent h | refused h | heard h => exact (List.append_nil _).symm

/-- A root that is exact on squares. -/
def squareRoot (x : ℚ) : ℚ := Nat.sqrt x.num.toNat / Nat.sqrt x.den

/-- A power of ten that is exact at whole exponents. -/
def wholePower (x : ℚ) : ℚ := 10 ^ ⌊x⌋

end Ingress

end Kutsu
