import Kutsu.Lib.Run
import Kutsu.Model.SipCall

/-! What the SIP side says of a call, over every run of it: an answer at most, then the end at most, each
with the reason it can have, and no event that could block the call. -/

namespace Kutsu

open Pipes Runs

/-- What the event channel carries of one call; `final` is how the INVITE failed, if it did. -/
inductive Story (final : Option CompletionError) : List SipEvent → Prop
  | silent : final = none → Story final []
  | refused {e} : final = some e →
      Story final [.terminated (.failed (classifyCompletionErr e).1 (classifyCompletionErr e).2)]
  | lost {reason} : final = none → (reason = .remoteHangup ∨ ∃ text, reason = SipCall.failed text) →
      Story final [.terminated reason]
  | up (pt : ℕ) : final = none → Story final [.answered (negCodec pt)]
  | talked (pt : ℕ) {reason} : final = none →
      (reason = .remoteHangup ∨ reason = .localHangup ∨ ∃ text, reason = SipCall.failed text) →
      Story final [.answered (negCodec pt), .terminated reason]

theorem Story.length_le {final : Option CompletionError} {story : List SipEvent} (h : Story final story) :
    story.length ≤ 2 := by
  cases h <;> simp

namespace CallPc

def talks : CallPc → Bool
  | .live | .hangingUp => true
  | _ => false

def sends : CallPc → Bool
  | .answering _ | .terminating _ => true
  | _ => false

end CallPc

namespace SipCall

def Moving (c : SipCall) : Prop :=
  (∃ t, c.outTask = some t ∧ t.running = true) ∨ ∃ t, c.inTask = some t ∧ t.running = true

inductive Step (c : SipCall) (input : CallInput) : SipCall → Prop
  | media {rtpIn rtpOut : Pipe Payload} {outTask : Option OutTask} {inTask : Option InTask}
      {uplink : UplinkQuality} {downlink : DownlinkQuality}
      (hout : c.outTask = none → outTask = none) (hin : c.inTask = none → inTask = none)
      (hmove : (∃ t, outTask = some t ∧ t.running = true) ∨ (∃ t, inTask = some t ∧ t.running = true) →
        c.Moving)
      (hbound : c.rtpIn.queued.length ≤ RTP_CAPACITY → rtpIn.queued.length ≤ RTP_CAPACITY) :
      Step c input { c with rtpIn, rtpOut, outTask, inTask, uplink, downlink }
  | deaf (hin : input = .eventsDropped) : Step c input { c with eventsOpen := false }
  | answered {codec : NegotiatedCodec} {events : Pipe SipEvent} (hpc : c.pc = .answering codec)
      (hev : (if c.eventsOpen then c.events.accept SIP_EVENTS_CAPACITY else c.events.discard) = some events) :
      Step c input { c with events, pc := .live, outTask := some { pt := codec.pt }, inTask := some {} }
  | terminated {bye : Bool} {events : Pipe SipEvent} (hpc : c.pc = .terminating bye)
      (hev : (if c.eventsOpen then c.events.accept SIP_EVENTS_CAPACITY else c.events.discard) = some events) :
      Step c input { c with events, pc := if bye then .bye else .returned }
  | refusedRequest {e : SipError} (hpc : c.pc = .media ∨ c.pc = .make) :
      Step c input { c with pc := .returned, reply := some (.error e) }
  | made (hpc : c.pc = .media ∨ c.pc = .make) {pc : CallPc} (hpc' : pc = .make ∨ pc = .reply) :
      Step c input { c with pc }
  | replied {taken : Bool} (hpc : c.pc = .reply) (hin : input = .replied taken) :
      Step c input { c with pc := if taken then .completion else .cancel, reply := some (.ok ()), handed := taken }
  | cancelled (hpc : c.pc = .cancel) : Step c input { c with pc := .returned }
  | unanswered {e : CompletionError} (hpc : c.pc = .completion ∨ c.pc = .finish) : Step c input (c.unanswered e)
  | completed (hpc : c.pc = .completion) : Step c input { c with pc := .finish }
  | finished {deadline : ℕ} (hpc : c.pc = .finish) :
      Step c input { c with pc := .negotiating none false deadline }
  | negotiated {sender sender' : Option NegotiatedCodec} {receiver receiver' : Bool} {deadline : ℕ}
      (hpc : c.pc = .negotiating sender receiver deadline)
      (hs : sender' = sender ∨ ∃ pt, sender' = some (negCodec pt)) :
      Step c input (c.negotiated sender' receiver' deadline)
  | lost {sender : Option NegotiatedCodec} {receiver bye : Bool} {deadline : ℕ} {reason : TermReason}
      (hpc : c.pc = .negotiating sender receiver deadline)
      (hr : reason = .remoteHangup ∨ ∃ text, reason = failed text) : Step c input (c.terminate reason bye)
  | hangup (hpc : c.pc = .live) (hin : input = .hangup) : Step c input { c with pc := .hangingUp }
  | left {reason : TermReason} (hpc : c.pc.talks = true)
      (hr : reason = .remoteHangup ∨ reason = .localHangup ∧ c.pc = .hangingUp ∨ ∃ text, reason = failed text) :
      Step c input (c.leave reason)
  | byeSent (hpc : c.pc = .bye) : Step c input { c with pc := .returned }
  | stay : Step c input c

variable {c c' : SipCall} {now : ℕ} {input : CallInput}

theorem trySend_length_le {cap : ℕ} {p : Pipe Payload} {x : Payload} (h : p.queued.length ≤ cap) :
    (p.trySend cap x).queued.length ≤ cap := by
  unfold Pipe.trySend
  split_ifs with hroom
  · simp only [List.length_append, List.length_singleton]
    omega
  · exact h

theorem forward_cases {ok : Bool} (h : c.forward now ok = some c') : Step c input c' := by
  simp only [forward, Option.bind_eq_bind, Option.bind_eq_some_iff] at h
  obtain ⟨t, ht, h⟩ := h
  split_ifs at h with hrun
  simp only [Option.bind_eq_some_iff] at h
  obtain ⟨⟨payload, rtpOut⟩, -, h⟩ := h
  obtain rfl := Option.some.inj h
  refine Step.media (by simp [ht]) id (fun hm => ?_) id
  rcases hm with - | hin
  · exact Or.inl ⟨t, ht, hrun⟩
  · exact Or.inr hin

theorem received_cases {packet : RtpPacket} (h : c.received packet = some c') : Step c input c' := by
  simp only [received, Option.bind_eq_bind, Option.bind_eq_some_iff] at h
  obtain ⟨t, ht, h⟩ := h
  split_ifs at h with hrun
  obtain rfl := Option.some.inj h
  refine Step.media id (by simp [ht]) (fun hm => ?_) trySend_length_le
  rcases hm with hout | -
  · exact Or.inl hout
  · exact Or.inr ⟨t, ht, hrun⟩

theorem eventSent_cases (h : c.eventSent = some c') : Step c input c' := by
  simp only [eventSent, Option.bind_eq_bind, Option.bind_eq_some_iff] at h
  obtain ⟨events, hev, h⟩ := h
  split at h
  · rename_i codec hpc
    obtain rfl := Option.some.inj h
    exact Step.answered hpc hev
  · rename_i hpc
    obtain rfl := Option.some.inj h
    exact @Step.terminated c input true events hpc hev
  · rename_i hpc
    obtain rfl := Option.some.inj h
    exact @Step.terminated c input false events hpc hev
  · cases h

theorem advance_cases (h : c.advance now input = some c') : Step c input c' := by
  unfold advance at h
  split at h
  case h_11 ok hpc =>
    split_ifs at h
    all_goals obtain rfl := Option.some.inj h
    · exact Step.stay
    · exact Step.lost hpc (Or.inr ⟨_, rfl⟩)
  case h_16 hpc =>
    split_ifs at h
    obtain rfl := Option.some.inj h
    exact Step.lost hpc (Or.inr ⟨_, rfl⟩)
  case h_18 ok hpc =>
    split_ifs at h
    all_goals obtain rfl := Option.some.inj h
    · exact Step.stay
    · exact Step.left (by rw [hpc]; rfl) (Or.inr (Or.inr ⟨_, rfl⟩))
  case h_26 => cases h
  all_goals obtain rfl := Option.some.inj h
  all_goals rename_i hpc
  case h_1 => exact Step.refusedRequest (Or.inl hpc)
  case h_2 => exact Step.made (Or.inl hpc) (Or.inl rfl)
  case h_3 => exact Step.refusedRequest (Or.inr hpc)
  case h_4 => exact Step.made (Or.inr hpc) (Or.inr rfl)
  case h_5 => exact Step.replied hpc rfl
  case h_6 => exact Step.cancelled hpc
  case h_7 => exact Step.unanswered (Or.inl hpc)
  case h_8 => exact Step.unanswered (Or.inr hpc)
  case h_9 => exact Step.completed hpc
  case h_10 => exact Step.finished hpc
  case h_12 => exact Step.negotiated hpc (Or.inr ⟨_, rfl⟩)
  case h_13 => exact Step.negotiated hpc (Or.inl rfl)
  case h_14 => exact Step.lost hpc (Or.inl rfl)
  case h_15 => exact Step.lost hpc (Or.inr ⟨_, rfl⟩)
  case h_17 => exact Step.media id id id id
  case h_19 | h_20 => exact Step.stay
  case h_21 => exact Step.left (by rw [hpc]; rfl) (Or.inl rfl)
  case h_22 => exact Step.left (by rw [hpc]; rfl) (Or.inr (Or.inr ⟨_, rfl⟩))
  case h_23 => exact Step.hangup hpc rfl
  case h_24 => exact Step.left (by rw [hpc]; rfl) (Or.inr (Or.inl ⟨rfl, hpc⟩))
  case h_25 => exact Step.byeSent hpc

theorem step_cases (h : c.step (now, input) = some c') : Step c input c' := by
  cases input with
  | forward ok => exact forward_cases h
  | received packet => exact received_cases h
  | eventSent => exact eventSent_cases h
  | eventsDropped => obtain rfl := Option.some.inj h; exact Step.deaf rfl
  | fed payload =>
    simp only [step] at h
    split_ifs at h
    obtain rfl := Option.some.inj h
    exact Step.media id id id id
  | _ => exact advance_cases h

structure Quiet (c : SipCall) : Prop where
  waiting : c.events.waiting = []
  final : c.final = none
  outTask : c.outTask = none
  inTask : c.inTask = none

theorem Quiet.not_moving (h : c.Quiet) : ¬ c.Moving := by
  rintro (⟨t, ht, -⟩ | ⟨t, ht, -⟩)
  · simp [h.outTask] at ht
  · simp [h.inTask] at ht

/-- What holds where the call's task stands, with what it has said so far. -/
def Place (c : SipCall) (story : List SipEvent) : CallPc → Prop
  | .media | .make | .reply => c.Quiet ∧ story = [] ∧ c.reply = none ∧ c.handed = false
  | .cancel => c.Quiet ∧ story = [] ∧ c.reply ≠ none ∧ c.handed = false
  | .completion | .finish => c.Quiet ∧ story = [] ∧ c.reply ≠ none
  | .negotiating sender _ _ =>
    c.Quiet ∧ story = [] ∧ c.reply ≠ none ∧ ∀ codec ∈ sender, ∃ pt, codec = negCodec pt
  | .answering codec =>
    ¬ c.Moving ∧ c.final = none ∧ c.reply ≠ none ∧ c.events.waiting = [.answered codec] ∧
      ∃ pt, codec = negCodec pt ∧ story = [.answered codec]
  | .live | .hangingUp =>
    c.final = none ∧ c.reply ≠ none ∧ c.events.waiting = [] ∧ ∃ pt, story = [.answered (negCodec pt)]
  | .terminating _ =>
    ¬ c.Moving ∧ c.reply ≠ none ∧ ∃ reason, c.events.waiting = [.terminated reason] ∧ .terminated reason ∈ story
  | .bye => ¬ c.Moving ∧ c.reply ≠ none ∧ c.events.waiting = [] ∧ ∃ reason, .terminated reason ∈ story
  | .returned =>
    ¬ c.Moving ∧ c.reply ≠ none ∧ c.events.waiting = [] ∧
      ((∃ reason, .terminated reason ∈ story) ∨ c.handed = false ∧ story = [])

variable {story : List SipEvent} {pc : CallPc}

theorem Place.waiting_eq (h : c.Place story pc) (hs : pc.sends = false) : c.events.waiting = [] := by
  cases pc with
  | answering | terminating => cases hs
  | live | hangingUp => exact h.2.2.1
  | bye | returned => exact h.2.2.1
  | _ => exact h.1.waiting

theorem Place.talks_of_moving (h : c.Place story pc) (hm : c.Moving) : pc.talks = true := by
  cases pc with
  | live | hangingUp => rfl
  | answering | terminating | bye | returned => exact absurd hm h.1
  | _ => exact absurd hm h.1.not_moving

/-- `story` is what the call has said, also to a consumer that has gone. -/
structure Kept (c : SipCall) (story : List SipEvent) : Prop where
  allowed : Story c.final story
  sublist : c.events.sent.Sublist story
  heard : c.eventsOpen = true → c.events.sent = story
  rtpIn : c.rtpIn.queued.length ≤ RTP_CAPACITY
  place : c.Place story c.pc

theorem Place.transfer (h : c.Place story pc) (hquiet : c.Quiet → c'.Quiet) (hmove : c'.Moving → c.Moving)
    (hfinal : c'.final = c.final) (hreply : c'.reply = c.reply) (hhanded : c'.handed = c.handed)
    (hwaiting : c'.events.waiting = c.events.waiting) : c'.Place story pc := by
  have hstill : ¬ c.Moving → ¬ c'.Moving := mt hmove
  cases pc
  all_goals
    simp only [Place, hreply, hfinal, hhanded, hwaiting] at h ⊢
  all_goals first | exact h | exact ⟨hquiet h.1, h.2⟩ | exact ⟨hstill h.1, h.2⟩

theorem Kept.stand (k : c.Kept story) (hev : c'.events = c.events) (hopen : c'.eventsOpen = c.eventsOpen)
    (hfinal : c'.final = c.final) (hrtp : c'.rtpIn = c.rtpIn) (hplace : c'.Place story c'.pc) : c'.Kept story :=
  ⟨hfinal ▸ k.allowed, hev ▸ k.sublist, hev ▸ hopen ▸ k.heard, hrtp ▸ k.rtpIn, hplace⟩

theorem Kept.say {ev : SipEvent} (k : c.Kept story) (hev : c'.events = c.events.offer [ev])
    (hopen : c'.eventsOpen = c.eventsOpen) (hrtp : c'.rtpIn = c.rtpIn)
    (hallowed : Story c'.final (story ++ [ev])) (hplace : c'.Place (story ++ [ev]) c'.pc) :
    c'.Kept (story ++ [ev]) where
  allowed := hallowed
  sublist := by rw [hev, Pipe.sent_offer]; exact k.sublist.append_right [ev]
  heard ho := by rw [hev, Pipe.sent_offer, k.heard (hopen ▸ ho)]
  rtpIn := hrtp ▸ k.rtpIn
  place := hplace

theorem taken_spec {events : Pipe SipEvent} {cap : ℕ}
    (h : (if c.eventsOpen then c.events.accept cap else c.events.discard) = some events) :
    events.waiting = c.events.waiting.tail ∧ events.read = c.events.read ∧
      events.sent.Sublist c.events.sent ∧ (c.eventsOpen = true → events.sent = c.events.sent) := by
  split_ifs at h with hopen
  · obtain ⟨hsent, hread, x, hw, -⟩ := Pipe.accept_spec h
    exact ⟨by rw [hw]; rfl, hread, hsent ▸ List.Sublist.refl _, fun _ => hsent⟩
  · obtain ⟨hread, hqueued, htail⟩ := Pipe.discard_spec h
    refine ⟨htail, hread, ?_, fun ho => absurd ho hopen⟩
    simp only [Pipe.sent, hread, hqueued, htail]
    exact ((List.tail_sublist _).append_left _).append_left _

theorem Kept.taken {events : Pipe SipEvent} {cap : ℕ} (k : c.Kept story)
    (h : (if c.eventsOpen then c.events.accept cap else c.events.discard) = some events)
    (hev : c'.events = events) (hopen : c'.eventsOpen = c.eventsOpen) (hfinal : c'.final = c.final)
    (hrtp : c'.rtpIn = c.rtpIn) (hplace : c'.Place story c'.pc) : c'.Kept story := by
  obtain ⟨-, -, hsub, heq⟩ := taken_spec h
  refine ⟨hfinal ▸ k.allowed, hev ▸ hsub.trans k.sublist, fun ho => ?_, hrtp ▸ k.rtpIn, hplace⟩
  rw [hev, heq (hopen ▸ ho), k.heard (hopen ▸ ho)]

theorem not_moving_leave {reason : TermReason} : ¬ (c.leave reason).Moving := by
  rintro (⟨t, ht, hrun⟩ | ⟨t, ht, hrun⟩)
  all_goals
    simp only [leave, terminate, Option.map_eq_some_iff] at ht
    obtain ⟨t, -, rfl⟩ := ht
    cases hrun

/-- One step of the call: it says at most one thing more. -/
theorem Kept.step (k : c.Kept story) (h : Step c input c') : ∃ story', c'.Kept story' := by
  have hp := k.place
  cases h with
  | stay => exact ⟨story, k⟩
  | deaf hin =>
    exact ⟨story, k.allowed, k.sublist, fun ho => Bool.noConfusion ho, k.rtpIn,
      hp.transfer (fun q => ⟨q.waiting, q.final, q.outTask, q.inTask⟩) id rfl rfl rfl rfl⟩
  | media hout hin hmove hbound =>
    exact ⟨story, k.allowed, k.sublist, k.heard, hbound k.rtpIn,
      hp.transfer (fun q => ⟨q.waiting, q.final, hout q.outTask, hin q.inTask⟩) hmove rfl rfl rfl rfl⟩
  | answered hpc hev =>
    rw [hpc] at hp
    obtain ⟨-, hfinal, hreply, hw, pt, rfl, rfl⟩ := hp
    exact ⟨_, k.taken hev rfl rfl rfl rfl ⟨hfinal, hreply, by rw [(taken_spec hev).1, hw]; rfl, pt, rfl⟩⟩
  | @terminated bye events hpc hev =>
    rw [hpc] at hp
    obtain ⟨hm, hreply, reason, hw, hin⟩ := hp
    have hw' : events.waiting = [] := by rw [(taken_spec hev).1, hw]; rfl
    refine ⟨story, k.taken hev rfl rfl rfl rfl ?_⟩
    cases bye with
    | true => exact ⟨hm, hreply, hw', reason, hin⟩
    | false => exact ⟨hm, hreply, hw', Or.inl ⟨reason, hin⟩⟩
  | refusedRequest hpc =>
    rcases hpc with hpc | hpc
    all_goals
      rw [hpc] at hp
      obtain ⟨hq, rfl, -, hh⟩ := hp
      exact ⟨[], k.stand rfl rfl rfl rfl ⟨hq.not_moving, by simp, hq.waiting, Or.inr ⟨hh, rfl⟩⟩⟩
  | made hpc hpc' =>
    rcases hpc with hpc | hpc <;> rcases hpc' with rfl | rfl
    all_goals
      rw [hpc] at hp
      obtain ⟨hq, rfl, hreply, hh⟩ := hp
      exact ⟨[], k.stand rfl rfl rfl rfl ⟨⟨hq.waiting, hq.final, hq.outTask, hq.inTask⟩, rfl, hreply, hh⟩⟩
  | @replied taken hpc hin =>
    rw [hpc] at hp
    obtain ⟨hq, rfl, -, -⟩ := hp
    have hq' : ∀ pc, Quiet { c with pc, reply := some (.ok ()), handed := taken } :=
      fun pc => ⟨hq.waiting, hq.final, hq.outTask, hq.inTask⟩
    refine ⟨[], k.stand rfl rfl rfl rfl ?_⟩
    cases taken with
    | true => exact ⟨hq' _, rfl, by simp⟩
    | false => exact ⟨hq' _, rfl, by simp, rfl⟩
  | cancelled hpc =>
    rw [hpc] at hp
    obtain ⟨hq, rfl, hreply, hh⟩ := hp
    exact ⟨[], k.stand rfl rfl rfl rfl ⟨hq.not_moving, hreply, hq.waiting, Or.inr ⟨hh, rfl⟩⟩⟩
  | @unanswered e hpc =>
    have hdial : c.Quiet ∧ story = [] ∧ c.reply ≠ none := by
      rcases hpc with hpc | hpc
      all_goals rw [hpc] at hp; exact hp
    obtain ⟨hq, rfl, hreply⟩ := hdial
    refine ⟨_, k.say rfl rfl rfl (Story.refused rfl) ⟨hq.not_moving, hreply, _, ?_, List.mem_cons_self⟩⟩
    exact congrArg (· ++ _) hq.waiting
  | completed hpc =>
    rw [hpc] at hp
    obtain ⟨hq, rfl, hreply⟩ := hp
    exact ⟨[], k.stand rfl rfl rfl rfl ⟨⟨hq.waiting, hq.final, hq.outTask, hq.inTask⟩, rfl, hreply⟩⟩
  | finished hpc =>
    rw [hpc] at hp
    obtain ⟨hq, rfl, hreply⟩ := hp
    exact ⟨[], k.stand rfl rfl rfl rfl
      ⟨⟨hq.waiting, hq.final, hq.outTask, hq.inTask⟩, rfl, hreply, fun _ h => by cases h⟩⟩
  | @negotiated sender sender' receiver receiver' deadline hpc hs =>
    rw [hpc] at hp
    obtain ⟨hq, rfl, hreply, hsender⟩ := hp
    have hsender' : ∀ codec ∈ sender', ∃ pt, codec = negCodec pt := by
      rcases hs with rfl | ⟨pt, rfl⟩
      · exact hsender
      · intro codec hc
        exact ⟨pt, (Option.some.inj hc).symm⟩
    unfold negotiated
    split
    · rename_i codec
      obtain ⟨pt, rfl⟩ := hsender' _ rfl
      refine ⟨_, k.say rfl rfl rfl (Story.up pt hq.final) ⟨hq.not_moving, hq.final, hreply, ?_, pt, rfl, rfl⟩⟩
      exact congrArg (· ++ _) hq.waiting
    · exact ⟨[], k.stand rfl rfl rfl rfl
        ⟨⟨hq.waiting, hq.final, hq.outTask, hq.inTask⟩, rfl, hreply, hsender'⟩⟩
  | lost hpc hr =>
    rw [hpc] at hp
    obtain ⟨hq, rfl, hreply, -⟩ := hp
    refine ⟨_, k.say rfl rfl rfl (Story.lost hq.final hr) ⟨hq.not_moving, hreply, _, ?_, List.mem_cons_self⟩⟩
    exact congrArg (· ++ _) hq.waiting
  | hangup hpc hin =>
    rw [hpc] at hp
    exact ⟨story, k.stand rfl rfl rfl rfl hp⟩
  | @left reason hpc hr =>
    have htalk : c.final = none ∧ c.reply ≠ none ∧ c.events.waiting = [] ∧
        ∃ pt, story = [.answered (negCodec pt)] := by
      cases heq : c.pc
      all_goals
        rw [heq] at hp hpc
        first | exact hp | cases hpc
    obtain ⟨hfinal, hreply, hw, pt, rfl⟩ := htalk
    have hr' : reason = .remoteHangup ∨ reason = .localHangup ∨ ∃ text, reason = failed text :=
      hr.imp_right (Or.imp_left And.left)
    refine ⟨_, k.say rfl rfl rfl (Story.talked pt hfinal hr')
      ⟨not_moving_leave, hreply, _, ?_, List.mem_cons_of_mem _ List.mem_cons_self⟩⟩
    exact congrArg (· ++ _) hw
  | byeSent hpc =>
    rw [hpc] at hp
    obtain ⟨hm, hreply, hw, hin⟩ := hp
    exact ⟨story, k.stand rfl rfl rfl rfl ⟨hm, hreply, hw, Or.inl hin⟩⟩

theorem kept_init {callId : String} : Kept { callId } [] where
  allowed := Story.silent rfl
  sublist := List.Sublist.refl _
  heard _ := rfl
  rtpIn := Nat.zero_le _
  place := ⟨⟨rfl, rfl, rfl, rfl⟩, rfl, rfl, rfl⟩

theorem exists_kept {callId : String} {tr : List (ℕ × CallInput)} (h : Run step Always { callId } tr c) :
    ∃ story, c.Kept story := by
  refine h.invariant (I := fun c => ∃ story, Kept c story) ⟨[], kept_init⟩ fun s a s' hk _ hs => ?_
  obtain ⟨story, k⟩ := hk
  exact k.step (step_cases hs)

/-- An event that is being sent finds room, or a consumer that is gone. -/
theorem Kept.exists_eventSent (k : c.Kept story) (hw : c.events.waiting ≠ []) (now : ℕ) :
    ∃ c', c.step (now, .eventSent) = some c' := by
  have hqueued : c.events.queued.length ≤ 2 := by
    have hlen := k.sublist.length_le.trans k.allowed.length_le
    simp only [Pipe.sent, List.length_append] at hlen
    omega
  have htaken : ∃ events,
      (if c.eventsOpen then c.events.accept SIP_EVENTS_CAPACITY else c.events.discard) = some events := by
    split_ifs
    · refine Pipe.exists_accept hw fun hb => ?_
      have hfull := hb.2
      simp only [SIP_EVENTS_CAPACITY] at hfull
      omega
    · obtain ⟨q, hq, -⟩ := Pipe.exists_discard hw
      exact ⟨q, hq⟩
  obtain ⟨events, hev⟩ := htaken
  change ∃ c', c.eventSent = some c'
  simp only [eventSent, hev, Option.bind_eq_bind, Option.bind_some]
  have hp := k.place
  cases hpc : c.pc with
  | answering codec => exact ⟨_, rfl⟩
  | terminating bye => cases bye <;> exact ⟨_, rfl⟩
  | _ => exact absurd (hp.waiting_eq (by rw [hpc]; rfl)) hw

/-- Whatever the user agent reports, and in whatever order the call's tasks run: an answer at most is
said, then the end at most, for one of the reasons it can have; a call that was handed over and has
returned has said why. No event blocks the call, and RTP moves only while it is up. -/
theorem call_signals {callId : String} {tr : List (ℕ × CallInput)} (h : Run step Always { callId } tr c) :
    (∃ story, Story c.final story ∧ c.events.sent.Sublist story ∧ (c.eventsOpen = true → c.events.sent = story) ∧
        (c.pc = .returned → c.handed = true → ∃ reason, .terminated reason ∈ story)) ∧
      (c.pc = .returned → c.reply ≠ none ∧ c.events.waiting = []) ∧
      (c.events.waiting ≠ [] → ∀ now, ∃ c', c.step (now, .eventSent) = some c') ∧
      (c.Moving → c.pc.talks = true) ∧ c.rtpIn.queued.length ≤ RTP_CAPACITY := by
  obtain ⟨story, k⟩ := exists_kept h
  have hend : c.pc = .returned → ¬ c.Moving ∧ c.reply ≠ none ∧ c.events.waiting = [] ∧
      ((∃ reason, .terminated reason ∈ story) ∨ c.handed = false ∧ story = []) := fun hpc => by
    have hp := k.place
    rw [hpc] at hp
    exact hp
  refine ⟨⟨story, k.allowed, k.sublist, k.heard, fun hpc hh => ?_⟩, fun hpc => ?_, k.exists_eventSent,
    k.place.talks_of_moving, k.rtpIn⟩
  · obtain ⟨-, -, -, hin | ⟨hno, -⟩⟩ := hend hpc
    · exact hin
    · simp [hno] at hh
  · obtain ⟨-, hreply, hw, -⟩ := hend hpc
    exact ⟨hreply, hw⟩

/-- A call whose line is busy. -/
theorem call_signals_busy : ∃ (c : SipCall) (story : List SipEvent), c.final = some (.failed 486 "Busy Here") ∧
    Story c.final story ∧ ∃ reason, .terminated reason ∈ story := by
  have hrun : Run step Always { callId := "kutsu-1" } [(0, .mediaBuilt (.ok ())), (1, .made (.ok ())),
      (1, .replied true), (900, .completed (.error (.failed 486 "Busy Here"))), (900, .eventSent)] _ :=
    run_of_exec rfl
  obtain ⟨⟨story, hstory, -, -, hend⟩, -⟩ := call_signals hrun
  exact ⟨_, story, rfl, hstory, hend rfl rfl⟩

end SipCall

end Kutsu
