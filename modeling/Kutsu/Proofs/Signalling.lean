import Kutsu.Model.Signalling
import Kutsu.Proofs.SipCall

/-! The two sides of one dial agree: what the engine makes of a call is what the SIP side has seen of it. -/

namespace Kutsu

open Pipes Runs

/-- Where an attempt stands with its call; `reads` is whether the loop still listens to the SIP side. -/
inductive PhoneLine where
  | before
  | inviting
  | ringing
  | up (reads : Bool)
  | busy
  | closing (c : Closing)
  | gone

def Phase.line : Phase → PhoneLine
  | .registered | .claimed | .rung | .start | .preflight _ _ | .backoff _ _ _ | .report _ _ | .reportWake _ _
  | .invite => .before
  | .inviting => .inviting
  | .warming | .ringing _ => .ringing
  | .answered _ => .up true
  | .live v => .up v.sipOpen
  | .draining _ _ => .up false
  | .requeueState _ | .requeueCount _ | .requeuePush _ | .requeueWake => .busy
  | .finalizing c _ => if c.sip.isSome then .closing c else .gone
  | _ => .gone

namespace RunInput

def silent : RunInput → Bool
  | .invited _ | .ring _ | .loop (.sip _) => false
  | _ => true

end RunInput

/-- How a ring that is not answered is closed, if it is not dialled again. -/
def TermReason.closing : TermReason → Closing
  | .failed outcome detail => { sip := some outcome, shape := unansweredShape, error := some detail }
  | other => { sip := some .noAnswer, shape := unansweredShape, error := some other.debug }

/-- The steps of an attempt as its call sees them; `dials` is whether the call is asked for. -/
inductive PhoneLine.Step : RunInput → Bool → PhoneLine → PhoneLine → Prop
  | quiet {input : RunInput} {l : PhoneLine} (h : input.silent = true) : Step input false l l
  | dial : Step .go true .before .inviting
  | invited : Step (.invited (.ok ())) false .inviting .ringing
  | refused (e : String) : Step (.invited (.error e)) false .inviting .gone
  | answered (codec : NegotiatedCodec) : Step (.ring (.answered codec)) false .ringing (.up true)
  | busy (detail : String) : Step (.ring (.terminated (.failed .busy detail))) false .ringing .busy
  | unanswered (reason : TermReason) : Step (.ring (.terminated reason)) false .ringing (.closing reason.closing)
  | closed : Step (.ring .closed) false .ringing .gone
  | read (r : Option SipEvent) {l : PhoneLine} (h : l = .up false ∨ l = .gone) :
      Step (.loop (.sip r)) false (.up true) l
  | ended {input : RunInput} {reads : Bool} (h : input.silent = true) : Step input false (.up reads) (.up false)
  | gone {input : RunInput} {l : PhoneLine} (h : input.silent = true) : Step input false l .gone

namespace Attempt

variable {cfg : ServerConfig} {sh : Shared} {tok : Token} {a : Attempt} {input : RunInput} {ph : Phase}
  {eff : Effect}

theorem line_onProbe (now i : ℕ) (r : Except String NetworkHealth) : (onProbe cfg now i r).line = .before := by
  unfold onProbe
  cases r <;> dsimp only <;> split_ifs <;> rfl

theorem line_onTerminated (reason : TermReason) :
    PhoneLine.Step (.ring (.terminated reason)) false .ringing (a.onTerminated cfg sh.clock reason).line := by
  unfold onTerminated
  cases reason with
  | failed outcome detail =>
    dsimp only
    split_ifs with h
    · obtain ⟨rfl, -⟩ := h
      exact .busy detail
    · exact .unanswered (.failed outcome detail)
  | remoteHangup =>
    dsimp only
    rw [if_neg fun h => by cases h.1]
    exact .unanswered .remoteHangup
  | localHangup =>
    dsimp only
    rw [if_neg fun h => by cases h.1]
    exact .unanswered .localHangup

theorem line_teardown (v : LoopVars) (endState : LoopEnd) (now : ℕ) :
    (Phase.teardown v endState now).line = .up false ∨ (Phase.teardown v endState now).line = .gone := by
  unfold Phase.teardown
  split_ifs
  · exact Or.inl rfl
  · exact Or.inr rfl

theorem sipOpen_react {id : CallId} {v : LoopVars} {now : ℕ} {i : LoopInput} (h : (RunInput.loop i).silent = true) :
    (v.react cfg id now i).next.vars.sipOpen = v.sipOpen := by
  cases i with
  | sip r => cases h
  | event ev => cases ev <;> rfl
  | eventsClosed | bridgeDone r | deadline | cancelled | harvestElapsed => rfl
  | qtick quality uplink downlink =>
    have hgates : (v.gates cfg (mergeQuality quality uplink downlink) downlink).2.sipOpen = v.sipOpen := by
      simp only [LoopVars.gates]
      split_ifs
      · rfl
      all_goals split <;> rfl
    simp only [LoopVars.react, LoopVars.onTick]
    split
    · rename_i reason v' heq
      rw [heq] at hgates
      exact hgates
    · rename_i v' heq
      rw [heq] at hgates
      simp only [LoopVars.watchdog]
      split_ifs
      · split <;> exact hgates
      · exact hgates

theorem line_afterLoop_silent {id : CallId} {v : LoopVars} {now : ℕ} {i : LoopInput}
    (h : (RunInput.loop i).silent = true) :
    PhoneLine.Step (.loop i) false (.up v.sipOpen) (Phase.afterLoop now (v.react cfg id now i).next).line := by
  have hopen : (v.react cfg id now i).next.vars.sipOpen = v.sipOpen := sipOpen_react h
  cases hn : (v.react cfg id now i).next with
  | «continue» v' =>
    rw [hn] at hopen
    simp only [LoopNext.vars] at hopen
    simp only [Phase.afterLoop, Phase.line, hopen]
    exact .quiet h
  | «break» v' endState =>
    simp only [Phase.afterLoop]
    rcases line_teardown v' endState now with hl | hl
    · rw [hl]
      exact .ended h
    · rw [hl]
      exact .gone h

theorem line_afterLoop_sip {id : CallId} {v : LoopVars} {now : ℕ} (hopen : v.sipOpen = true) (r : Option SipEvent) :
    PhoneLine.Step (.loop (.sip r)) false (.up v.sipOpen)
      (Phase.afterLoop now (v.react cfg id now (.sip r)).next).line := by
  rw [hopen]
  simp only [LoopVars.react]
  unfold LoopVars.onSip
  split
  · exact .read _ (Or.inl rfl)
  all_goals
    split_ifs
    · exact .read _ (Or.inl rfl)
    · exact .read _ (Or.inl rfl)
    · exact .read _ (line_teardown _ _ _)

theorem dials_store (op : Option StoreOp) : ((op.map Effect.store).getD .idle).dials = false := by
  cases op <;> rfl

theorem line_leave (rest : Rest) (d : Disposition) : (rest.leave d).line = .gone := by
  unfold Rest.leave
  split
  · rfl
  · split_ifs <;> rfl

/-- Every step of `run_call` is one of the table's. -/
theorem line_step (h : a.next cfg sh tok input = some (ph, eff)) :
    PhoneLine.Step input eff.dials a.phase.line ph.line := by
  unfold next at h
  split at h
  any_goals
    rename_i hph
    rw [hph]
  case h_1 =>
    obtain ⟨rfl, rfl⟩ := Prod.mk.inj (Option.some.inj h)
    split_ifs <;> exact .quiet rfl
  case h_2 =>
    obtain ⟨rfl, rfl⟩ := Prod.mk.inj (Option.some.inj h)
    rw [line_onProbe]
    exact .quiet rfl
  case h_3 | h_4 =>
    split_ifs at h
    obtain ⟨rfl, rfl⟩ := Prod.mk.inj (Option.some.inj h)
    exact .gone rfl
  case h_5 =>
    split_ifs at h
    obtain ⟨rfl, rfl⟩ := Prod.mk.inj (Option.some.inj h)
    exact .quiet rfl
  case h_6 =>
    split_ifs at h
    all_goals obtain ⟨rfl, rfl⟩ := Prod.mk.inj (Option.some.inj h)
    · exact .quiet rfl
    · exact .quiet rfl
    · exact .gone rfl
  case h_7 =>
    obtain ⟨rfl, rfl⟩ := Prod.mk.inj (Option.some.inj h)
    split_ifs
    · exact .quiet rfl
    · exact .gone rfl
  case h_8 =>
    obtain ⟨rfl, rfl⟩ := Prod.mk.inj (Option.some.inj h)
    exact .dial
  case h_9 =>
    split at h
    all_goals obtain ⟨rfl, rfl⟩ := Prod.mk.inj (Option.some.inj h)
    · exact .invited
    · exact .refused _
  case h_10 =>
    obtain ⟨rfl, rfl⟩ := Prod.mk.inj (Option.some.inj h)
    exact .quiet rfl
  case h_11 =>
    split at h
    all_goals obtain ⟨rfl, rfl⟩ := Prod.mk.inj (Option.some.inj h)
    · exact .answered _
    · exact line_onTerminated _
    · exact .closed
  case h_16 =>
    obtain ⟨rfl, rfl⟩ := Prod.mk.inj (Option.some.inj h)
    split
    · exact .quiet rfl
    · exact .gone rfl
  case h_18 v i =>
    split_ifs at h with hc
    obtain ⟨rfl, rfl⟩ := Prod.mk.inj (Option.some.inj h)
    rw [dials_store]
    cases i with
    | sip r => exact line_afterLoop_sip hc.1 r
    | _ => exact line_afterLoop_silent rfl
  case h_19 =>
    obtain ⟨rfl, rfl⟩ := Prod.mk.inj (Option.some.inj h)
    split_ifs
    · exact .quiet rfl
    · exact .gone rfl
  case h_26 =>
    obtain ⟨rfl, rfl⟩ := Prod.mk.inj (Option.some.inj h)
    rw [line_leave]
    exact .gone rfl
  case h_28 =>
    obtain ⟨rfl, rfl⟩ := Prod.mk.inj (Option.some.inj h)
    split <;> exact .gone rfl
  case h_33 =>
    split_ifs at h
    all_goals
      obtain ⟨rfl, rfl⟩ := Prod.mk.inj (Option.some.inj h)
      exact .gone rfl
  case h_34 => cases h
  all_goals obtain ⟨rfl, rfl⟩ := Prod.mk.inj (Option.some.inj h)
  case h_12 | h_13 | h_14 => exact .quiet rfl
  all_goals exact .gone rfl

end Attempt

namespace SipCall

variable {c c' : SipCall} {input : CallInput} {story : List SipEvent}

/-- Nobody has hung up on our side, and nobody is told so. -/
structure Unhung (c : SipCall) : Prop where
  pc : c.pc ≠ .hangingUp
  sent : .terminated .localHangup ∉ c.events.sent

theorem Unhung.say {ev : SipEvent} (u : c.Unhung) (hpc : c'.pc ≠ .hangingUp) (hev : c'.events = c.events.offer [ev])
    (hne : ev ≠ .terminated .localHangup) : c'.Unhung := by
  refine ⟨hpc, fun hm => ?_⟩
  rw [hev, Pipe.sent_offer, List.mem_append, List.mem_singleton] at hm
  rcases hm with hm | hm
  · exact u.sent hm
  · exact hne hm.symm

theorem failed_ne_localHangup {reason : TermReason} (h : reason = .remoteHangup ∨ ∃ text, reason = failed text) :
    SipEvent.terminated reason ≠ .terminated .localHangup := by
  rcases h with rfl | ⟨text, rfl⟩
  all_goals
    intro hh
    cases hh

theorem Step.read_eq (h : Step c input c') : c'.events.read = c.events.read := by
  cases h with
  | answered hpc hev | terminated hpc hev => exact (taken_spec hev).2.1
  | @negotiated sender sender' receiver receiver' deadline hpc hs =>
    unfold SipCall.negotiated
    split <;> rfl
  | _ => rfl

theorem Kept.final_eq (k : c.Kept story) (hne : story ≠ []) (h : Step c input c') : c'.final = c.final := by
  have hp := k.place
  cases h with
  | unanswered hpc =>
    rcases hpc with hpc | hpc
    all_goals
      rw [hpc] at hp
      exact absurd hp.2.1 hne
  | @negotiated sender sender' receiver receiver' deadline hpc hs =>
    unfold SipCall.negotiated
    split <;> rfl
  | _ => rfl

theorem Unhung.step (u : c.Unhung) (hin : input ≠ .hangup) (h : Step c input c') : c'.Unhung := by
  cases h with
  | answered hpc hev => exact ⟨fun hh => CallPc.noConfusion hh, fun hm => u.sent ((taken_spec hev).2.2.1.subset hm)⟩
  | @terminated bye events hpc hev =>
    refine ⟨fun hh => ?_, fun hm => u.sent ((taken_spec hev).2.2.1.subset hm)⟩
    cases bye <;> cases hh
  | refusedRequest hpc => exact ⟨fun hh => CallPc.noConfusion hh, u.sent⟩
  | made hpc hpc' => exact ⟨by rcases hpc' with rfl | rfl <;> simp, u.sent⟩
  | @replied taken hpc hin => exact ⟨by cases taken <;> simp, u.sent⟩
  | cancelled hpc | completed hpc | finished hpc | byeSent hpc =>
    exact ⟨fun hh => CallPc.noConfusion hh, u.sent⟩
  | unanswered hpc => exact u.say (fun hh => CallPc.noConfusion hh) rfl (fun hh => by cases hh)
  | @negotiated sender sender' receiver receiver' deadline hpc hs =>
    unfold SipCall.negotiated
    split
    · exact u.say (fun hh => CallPc.noConfusion hh) rfl (fun hh => by cases hh)
    · exact ⟨fun hh => CallPc.noConfusion hh, u.sent⟩
  | lost hpc hr => exact u.say (fun hh => CallPc.noConfusion hh) rfl (failed_ne_localHangup hr)
  | hangup hpc hin' => exact absurd hin' hin
  | left hpc hr =>
    refine u.say (fun hh => CallPc.noConfusion hh) rfl (failed_ne_localHangup ?_)
    rcases hr with hr | ⟨-, hpc'⟩ | hr
    · exact Or.inl hr
    · exact absurd hpc' u.pc
    · exact Or.inr hr
  | media | deaf | stay => exact ⟨u.pc, u.sent⟩

theorem Step.open_eq (hin : input ≠ .eventsDropped) (h : Step c input c') : c'.eventsOpen = c.eventsOpen := by
  cases h with
  | deaf hin' => exact absurd hin' hin
  | @negotiated sender sender' receiver receiver' deadline hpc hs =>
    unfold SipCall.negotiated
    split <;> rfl
  | _ => rfl

theorem Step.handed (h : Step c input c') (htaken : ∀ taken, input = .replied taken → taken = true)
    (hh : c.reply = some (.ok ()) → c.handed = true) :
    c'.reply = some (.ok ()) → c'.handed = true := by
  cases h with
  | refusedRequest hpc => exact fun hr => by cases hr
  | replied hpc hin => exact fun _ => htaken _ hin
  | @negotiated sender sender' receiver receiver' deadline hpc hs =>
    unfold SipCall.negotiated
    split <;> exact hh
  | _ => exact hh

theorem Kept.handed_stays (k : c.Kept story) (hh : c.handed = true) (h : Step c input c') : c'.handed = true := by
  have hp := k.place
  cases h with
  | replied hpc hin =>
    rw [hpc] at hp
    exact absurd hh (by simp [hp.2.2.2])
  | @negotiated sender sender' receiver receiver' deadline hpc hs =>
    unfold SipCall.negotiated
    split <;> exact hh
  | _ => exact hh

theorem tell_spec {ev : SipEvent} (h : c.tell ev = some c') :
    ∃ events, c.events.recv = some (ev, events) ∧ c' = { c with events } := by
  simp only [tell, Option.bind_eq_bind, Option.bind_eq_some_iff] at h
  obtain ⟨⟨ev', events⟩, hrecv, h⟩ := h
  split_ifs at h with heq
  obtain rfl := Option.some.inj h
  dsimp only at heq
  subst heq
  exact ⟨events, hrecv, rfl⟩

theorem Kept.tell {ev : SipEvent} (k : c.Kept story) (h : c.tell ev = some c') : c'.Kept story := by
  obtain ⟨events, hrecv, rfl⟩ := tell_spec h
  obtain ⟨hsent, -, hw, -⟩ := Pipe.recv_spec hrecv
  refine ⟨k.allowed, hsent ▸ k.sublist, fun ho => hsent.trans (k.heard ho), k.rtpIn, ?_⟩
  exact k.place.transfer (fun q => ⟨hw.trans q.waiting, q.final, q.outTask, q.inTask⟩) id rfl rfl rfl hw

theorem Unhung.tell {ev : SipEvent} (u : c.Unhung) (h : c.tell ev = some c') : c'.Unhung := by
  obtain ⟨events, hrecv, rfl⟩ := tell_spec h
  exact ⟨u.pc, fun hm => u.sent ((Pipe.recv_spec hrecv).1 ▸ hm)⟩

theorem read_tell {ev : SipEvent} (h : c.tell ev = some c') : c'.events.read = c.events.read ++ [ev] := by
  obtain ⟨events, hrecv, rfl⟩ := tell_spec h
  exact (Pipe.recv_spec hrecv).2.1

theorem Kept.heard_of (k : c.Kept story) {input : RunInput} (h : c.heard input = some c') :
    c'.Kept story ∧ c'.eventsOpen = c.eventsOpen ∧ c'.handed = c.handed ∧ c'.reply = c.reply ∧
      c'.final = c.final ∧ (c.Unhung → c'.Unhung) := by
  have htell : ∀ ev, c.tell ev = some c' → c'.Kept story ∧ c'.eventsOpen = c.eventsOpen ∧
      c'.handed = c.handed ∧ c'.reply = c.reply ∧ c'.final = c.final ∧ (c.Unhung → c'.Unhung) := by
    intro ev h
    refine ⟨k.tell h, ?_⟩
    have hu : c.Unhung → c'.Unhung := fun u => u.tell h
    obtain ⟨events, -, rfl⟩ := tell_spec h
    exact ⟨rfl, rfl, rfl, rfl, hu⟩
  unfold SipCall.heard at h
  split at h
  case h_3 | h_4 | h_7 => exact htell _ h
  case h_1 | h_2 =>
    split at h
    · first | split_ifs at h | skip
      cases h
      exact ⟨k, rfl, rfl, rfl, rfl, id⟩
    · cases h
  case h_5 | h_6 =>
    split_ifs at h
    cases h
    exact ⟨k, rfl, rfl, rfl, rfl, id⟩
  case h_8 =>
    cases h
    exact ⟨k, rfl, rfl, rfl, rfl, id⟩

end SipCall

def SipCall.Refused (c : SipCall) (reason : TermReason) : Prop :=
  (∃ e, c.final = some e ∧ reason = .failed (classifyCompletionErr e).1 (classifyCompletionErr e).2) ∨
    c.final = none ∧ (reason = .remoteHangup ∨ ∃ text, reason = SipCall.failed text)

namespace Signalling

/-- What the call has come to, where the engine stands. -/
def Agreed (dialled : Bool) (c : SipCall) : PhoneLine → Prop
  | .before => dialled = false ∧ ∃ callId, c = { callId }
  | .inviting => dialled = true ∧ c.Unhung ∧ c.eventsOpen = true ∧ c.events.read = [] ∧
      (c.reply = some (.ok ()) → c.handed = true)
  | .ringing => dialled = true ∧ c.Unhung ∧ c.eventsOpen = true ∧ c.events.read = [] ∧ c.handed = true
  | .up reads => dialled = true ∧ c.Unhung ∧ c.eventsOpen = true ∧ c.handed = true ∧
      ∃ pt, .answered (negCodec pt) ∈ c.events.read ∧ (reads = true → c.events.read = [.answered (negCodec pt)])
  | .busy => c.events.read ≠ [] ∧ ∃ detail, c.Refused (.failed .busy detail)
  | .closing cl => c.events.read ≠ [] ∧ ∃ reason, c.Refused reason ∧ cl = reason.closing
  | .gone => True

variable {cfg : ServerConfig} {tok : Token} {c c' : SipCall} {story : List SipEvent} {dialled : Bool}
  {l l' : PhoneLine}

theorem story_ne_nil (k : c.Kept story) (h : c.events.read ≠ []) : story ≠ [] := by
  rintro rfl
  have hsent := List.sublist_nil.mp k.sublist
  simp only [Pipe.sent, List.append_eq_nil_iff] at hsent
  exact h hsent.1

theorem refused_of_head (k : c.Kept story) (ho : c.eventsOpen = true) {reason : TermReason}
    (hread : c.events.read = [.terminated reason]) : c.Refused reason := by
  have hsent : story = .terminated reason :: (c.events.queued ++ c.events.waiting) := by
    rw [← k.heard ho, Pipe.sent, hread]
    rfl
  have hallowed := k.allowed
  rw [hsent] at hallowed
  generalize c.events.queued ++ c.events.waiting = rest at hallowed
  cases hallowed with
  | refused hf => exact Or.inl ⟨_, hf, rfl⟩
  | lost hf hr => exact Or.inr ⟨hf, hr⟩

theorem answered_of_head (k : c.Kept story) (ho : c.eventsOpen = true) {codec : NegotiatedCodec}
    (hread : c.events.read = [.answered codec]) : ∃ pt, codec = negCodec pt := by
  have hsent : story = .answered codec :: (c.events.queued ++ c.events.waiting) := by
    rw [← k.heard ho, Pipe.sent, hread]
    rfl
  have hallowed := k.allowed
  rw [hsent] at hallowed
  generalize c.events.queued ++ c.events.waiting = rest at hallowed
  cases hallowed with
  | up pt hf => exact ⟨pt, rfl⟩
  | talked pt hf hr => exact ⟨pt, rfl⟩

theorem agreed_sip {input : CallInput} (k : c.Kept story) (ha : Agreed true c l)
    (hhang : l = .inviting ∨ l = .ringing ∨ (∃ reads, l = .up reads) → input ≠ .hangup ∧ input ≠ .eventsDropped)
    (htaken : l = .inviting → ∀ taken, input = .replied taken → taken = true)
    (h : SipCall.Step c input c') : Agreed true c' l := by
  have hread := h.read_eq
  cases l with
  | before => exact Bool.noConfusion ha.1
  | inviting =>
    obtain ⟨hd, hu, ho, hr, hh⟩ := ha
    obtain ⟨hno, hno'⟩ := hhang (Or.inl rfl)
    exact ⟨hd, hu.step hno h, (h.open_eq hno').trans ho, hread.trans hr, h.handed (htaken rfl) hh⟩
  | ringing =>
    obtain ⟨hd, hu, ho, hr, hh⟩ := ha
    obtain ⟨hno, hno'⟩ := hhang (Or.inr (Or.inl rfl))
    exact ⟨hd, hu.step hno h, (h.open_eq hno').trans ho, hread.trans hr, k.handed_stays hh h⟩
  | up reads =>
    obtain ⟨hd, hu, ho, hh, hans⟩ := ha
    obtain ⟨hno, hno'⟩ := hhang (Or.inr (Or.inr ⟨reads, rfl⟩))
    exact ⟨hd, hu.step hno h, (h.open_eq hno').trans ho, k.handed_stays hh h, hread ▸ hans⟩
  | busy =>
    obtain ⟨hne, detail, hrefused⟩ := ha
    refine ⟨hread ▸ hne, detail, ?_⟩
    rw [SipCall.Refused, k.final_eq (story_ne_nil k hne) h]
    exact hrefused
  | closing cl =>
    obtain ⟨hne, reason, hrefused, hcl⟩ := ha
    refine ⟨hread ▸ hne, reason, ?_, hcl⟩
    rw [SipCall.Refused, k.final_eq (story_ne_nil k hne) h]
    exact hrefused
  | gone => trivial

theorem agreed_engine {input : RunInput} {dials : Bool} (k : c.Kept story) (ha : Agreed dialled c l)
    (h : PhoneLine.Step input dials l l') (hheard : c.heard input = some c') : Agreed (dialled || dials) c' l' := by
  have hquiet : input.silent = true → c' = c := by
    intro hs
    unfold SipCall.heard at hheard
    split at hheard
    all_goals try cases hs
    exact (Option.some.inj hheard).symm
  obtain ⟨k', hopen, hhanded, hreply, hfinal, hu'⟩ := k.heard_of hheard
  cases h with
  | quiet hs =>
    obtain rfl := hquiet hs
    rw [Bool.or_false]
    exact ha
  | dial =>
    obtain rfl := hquiet rfl
    obtain ⟨-, callId, rfl⟩ := ha
    refine ⟨Bool.or_true _, ⟨fun hh => CallPc.noConfusion hh, fun hm => ?_⟩, rfl, rfl, fun hr => by cases hr⟩
    exact absurd hm (List.not_mem_nil)
  | invited =>
    obtain ⟨hd, hu, ho, hr, hh⟩ := ha
    have hr' : c.reply = some (.ok ()) ∧ c' = c := by
      simp only [SipCall.heard] at hheard
      split at hheard
      · cases hheard
        exact ⟨‹_›, rfl⟩
      · cases hheard
    obtain ⟨hrep, rfl⟩ := hr'
    exact ⟨by rw [hd]; rfl, hu, ho, hr, hh hrep⟩
  | refused e => trivial
  | answered codec =>
    obtain ⟨hd, hu, ho, hr, hh⟩ := ha
    have hread : c'.events.read = [.answered codec] := by
      rw [SipCall.read_tell (show c.tell (.answered codec) = some c' from hheard), hr]
      rfl
    obtain ⟨pt, rfl⟩ := answered_of_head k' (hopen.trans ho) hread
    exact ⟨by rw [hd]; rfl, hu' hu, hopen.trans ho, hhanded.trans hh, pt, by rw [hread]; exact List.mem_cons_self,
      fun _ => hread⟩
  | busy detail =>
    obtain ⟨-, -, ho, hr, -⟩ := ha
    have hread : c'.events.read = [.terminated (.failed .busy detail)] := by
      rw [SipCall.read_tell (show c.tell (.terminated (.failed .busy detail)) = some c' from hheard), hr]
      rfl
    exact ⟨by rw [hread]; exact List.cons_ne_nil _ _, detail, refused_of_head k' (hopen.trans ho) hread⟩
  | unanswered reason =>
    obtain ⟨-, -, ho, hr, -⟩ := ha
    have hread : c'.events.read = [.terminated reason] := by
      rw [SipCall.read_tell (show c.tell (.terminated reason) = some c' from hheard), hr]
      rfl
    exact ⟨by rw [hread]; exact List.cons_ne_nil _ _, reason, refused_of_head k' (hopen.trans ho) hread, rfl⟩
  | closed => trivial
  | read r hl =>
    obtain ⟨hd, hu, ho, hh, pt, hmem, -⟩ := ha
    rcases hl with rfl | rfl
    · refine ⟨by rw [hd]; rfl, hu' hu, hopen.trans ho, hhanded.trans hh, pt, ?_, fun hf => Bool.noConfusion hf⟩
      cases r with
      | none =>
        simp only [SipCall.heard] at hheard
        split_ifs at hheard
        cases hheard
        exact hmem
      | some ev =>
        rw [SipCall.read_tell (show c.tell ev = some c' from hheard)]
        exact List.mem_append_left _ hmem
    · trivial
  | ended hs =>
    obtain rfl := hquiet hs
    obtain ⟨hd, hu, ho, hh, pt, hmem, -⟩ := ha
    exact ⟨by rw [hd]; rfl, hu, ho, hh, pt, hmem, fun hf => Bool.noConfusion hf⟩
  | gone hs => trivial

/-- The two sides of a dial agree. -/
def Joint (s : Signalling) : Prop := (∃ story, s.sip.Kept story) ∧ Agreed s.dialled s.sip s.attempt.phase.line

theorem holdsPhone_of_line {ph : Phase}
    (h : ph.line = .inviting ∨ ph.line = .ringing ∨ ∃ reads, ph.line = .up reads) : ph.holdsPhone = true := by
  cases ph with
  | finalizing cl rest =>
    simp only [Phase.line] at h
    split_ifs at h <;> simp at h
  | inviting | warming | ringing | answered | live | draining => rfl
  | _ => simp [Phase.line] at h

theorem inviting_of_line {ph : Phase} (h : ph.line = .inviting) : ph = .inviting := by
  cases ph with
  | inviting => rfl
  | finalizing cl rest =>
    simp only [Phase.line] at h
    split_ifs at h
  | _ => cases h

theorem joint_step {s s' : Signalling} {act : SignalAct} (hj : s.Joint) (h : s.step cfg tok act = some s') :
    s'.Joint := by
  obtain ⟨⟨story, k⟩, ha⟩ := hj
  cases act with
  | engine sh input =>
    simp only [step, Option.bind_eq_bind, Option.bind_eq_some_iff] at h
    obtain ⟨sip, hheard, ⟨ph, eff⟩, hnext, h⟩ := h
    obtain rfl := Option.some.inj h
    exact ⟨⟨story, (k.heard_of hheard).1⟩, agreed_engine k ha (Attempt.line_step hnext) hheard⟩
  | sip now input =>
    simp only [step] at h
    split_ifs at h with hc
    obtain ⟨sip, hsip, rfl⟩ := Option.map_eq_some_iff.mp h
    obtain ⟨hd, hlets⟩ := Bool.and_eq_true_iff.mp hc
    have hstep := SipCall.step_cases hsip
    refine ⟨k.step hstep, ?_⟩
    dsimp only
    rw [hd] at ha ⊢
    refine agreed_sip k ha (fun hl => ?_) (fun hl taken ht => ?_) hstep
    · have hholds := holdsPhone_of_line hl
      constructor
      all_goals
        rintro rfl
        simp [lets, hholds] at hlets
    · subst ht
      have hph := inviting_of_line hl
      simpa [lets, hph] using hlets

theorem joint_of_run {callId : String} {entry : PendingEntry} {probe : Bool} {tr : List SignalAct} {s : Signalling}
    (h : Run (step cfg tok) Always (init callId entry probe) tr s) : s.Joint := by
  refine h.invariant (I := Joint) ?_ fun _ _ _ hj _ hs => joint_step hj hs
  exact ⟨⟨[], SipCall.kept_init⟩, rfl, callId, rfl⟩

theorem engine_line {s s' : Signalling} {sh : Shared} {input : RunInput}
    (h : s.step cfg tok (.engine sh input) = some s') :
    ∃ dials, s.sip.heard input = some s'.sip ∧
      PhoneLine.Step input dials s.attempt.phase.line s'.attempt.phase.line := by
  simp only [step, Option.bind_eq_bind, Option.bind_eq_some_iff] at h
  obtain ⟨sip, hheard, ⟨ph, eff⟩, hnext, h⟩ := h
  obtain rfl := Option.some.inj h
  exact ⟨eff.dials, hheard, Attempt.line_step hnext⟩

/-- The end of the call is read before its channel is found closed. -/
theorem terminated_of_closed (k : c.Kept story) (ho : c.eventsOpen = true) (hh : c.handed = true)
    (hc : c.closed = true) : ∃ reason, .terminated reason ∈ c.events.read := by
  simp only [SipCall.closed, Bool.and_eq_true, List.isEmpty_iff] at hc
  obtain ⟨hq, hpc⟩ := hc
  have hp := k.place
  have hret : c.pc = .returned := by
    cases hpc' : c.pc
    case returned => rfl
    all_goals
      rw [hpc'] at hpc
      cases hpc
  rw [hret] at hp
  obtain ⟨-, -, hw, ⟨reason, hin⟩ | ⟨hno, -⟩⟩ := hp
  · refine ⟨reason, ?_⟩
    rw [← k.heard ho, Pipe.sent, hq, hw, List.append_nil, List.append_nil] at hin
    exact hin
  · simp [hno] at hh

/-- What the engine cannot hear of its call, wherever the two stand. -/
def Unheard (input : RunInput) : Prop :=
  input = .ring .closed ∨ input = .loop (.sip none) ∨ (∃ codec, input = .loop (.sip (some (.answered codec)))) ∨
    input = .ring (.terminated .localHangup) ∨ input = .loop (.sip (some (.terminated .localHangup)))

theorem unheard {s : Signalling} (hj : s.Joint) {sh : Shared} {input : RunInput} (hin : Unheard input) :
    s.step cfg tok (.engine sh input) = none := by
  rw [Option.eq_none_iff_forall_ne_some]
  intro s' h
  obtain ⟨⟨story, k⟩, ha⟩ := hj
  obtain ⟨dials, hheard, hline⟩ := engine_line h
  generalize s.attempt.phase.line = l at ha hline
  generalize s'.attempt.phase.line = l' at hline
  rcases hin with rfl | rfl | ⟨codec, rfl⟩ | rfl | rfl
  · cases hline with
    | closed =>
      obtain ⟨-, -, ho, hr, hh⟩ := ha
      simp only [SipCall.heard] at hheard
      split_ifs at hheard with hc
      obtain ⟨reason, hin⟩ := terminated_of_closed k ho hh hc
      rw [hr] at hin
      cases hin
    | quiet hs | ended hs | gone hs => cases hs
  · cases hline with
    | read r hl =>
      obtain ⟨-, -, ho, hh, pt, -, hr⟩ := ha
      simp only [SipCall.heard] at hheard
      split_ifs at hheard with hc
      obtain ⟨reason, hin⟩ := terminated_of_closed k ho hh hc
      rw [hr rfl] at hin
      simp at hin
    | quiet hs | ended hs | gone hs => cases hs
  · cases hline with
    | read r hl =>
      -- a second answer is in no story
      obtain ⟨-, -, ho, -, pt, -, hr⟩ := ha
      have htell : s.sip.tell (.answered codec) = some s'.sip := hheard
      have hsent := (k.tell htell).heard ((k.heard_of hheard).2.1.trans ho)
      rw [Pipe.sent, SipCall.read_tell htell, hr rfl] at hsent
      have hallowed := (k.tell htell).allowed
      rw [← hsent] at hallowed
      generalize s'.sip.events.queued ++ s'.sip.events.waiting = rest at hallowed
      cases hallowed
    | quiet hs | ended hs | gone hs => cases hs
  all_goals
    have htell : s.sip.tell (.terminated .localHangup) = some s'.sip := hheard
    have hu : s.sip.Unhung := by
      cases hline with
      | quiet hs | ended hs | gone hs => cases hs
      | _ => exact ha.2.1
    refine (hu.tell htell).sent ?_
    rw [Pipe.sent, SipCall.read_tell htell]
    simp

theorem outcomeFromStatus_busy {code : ℕ} (h : outcomeFromStatus code = .busy) : code = 486 ∨ code = 600 := by
  unfold outcomeFromStatus at h
  split_ifs at h
  assumption

theorem busy_of_refused {detail : String} (h : c.Refused (.failed .busy detail)) :
    ∃ code line, c.final = some (.failed code line) ∧ (code = 486 ∨ code = 600) := by
  rcases h with ⟨e, hf, hr⟩ | ⟨-, hr | ⟨text, hr⟩⟩
  · cases e with
    | failed code line =>
      simp only [classifyCompletionErr, TermReason.failed.injEq] at hr
      exact ⟨code, line, hf, outcomeFromStatus_busy hr.1.symm⟩
    | requestTimedOut | other => cases hr
  · cases hr
  · cases hr

/-- Over every interleaving of the two sides, and whatever the rest of the engine and the user agent do: the
engine never finds the event channel closed, a second answer or its own hangup on it. A call is put back as
busy only after the trunk's 486 or 600, one closed for its SIP outcome is closed for what the trunk said,
and the engine talks only on a call whose INVITE was answered. -/
theorem signalling {callId : String} {entry : PendingEntry} {probe : Bool} {tr : List SignalAct} {s : Signalling}
    (h : Run (step cfg tok) Always (init callId entry probe) tr s) :
    (∀ sh input, Unheard input → s.step cfg tok (.engine sh input) = none) ∧
      (s.attempt.phase.line = .busy →
        ∃ code detail, s.sip.final = some (.failed code detail) ∧ (code = 486 ∨ code = 600)) ∧
      (∀ cl rest, s.attempt.phase = .finalizing cl rest → cl.sip.isSome = true →
        ∃ reason, s.sip.Refused reason ∧ cl = reason.closing) ∧
      (∀ reads, s.attempt.phase.line = .up reads →
        ∃ pt, .answered (negCodec pt) ∈ s.sip.events.read ∧ s.sip.final = none) := by
  have hj := joint_of_run h
  refine ⟨fun sh input hin => unheard hj hin, ?_⟩
  obtain ⟨⟨story, k⟩, ha⟩ := hj
  refine ⟨fun hbusy => ?_, fun cl rest hph hsip => ?_, fun reads hup => ?_⟩
  · rw [hbusy] at ha
    obtain ⟨-, detail, hrefused⟩ := ha
    exact busy_of_refused hrefused
  · have hline : s.attempt.phase.line = .closing cl := by
      rw [hph, Phase.line, if_pos hsip]
    rw [hline] at ha
    exact ha.2
  · rw [hup] at ha
    obtain ⟨-, -, ho, -, pt, hmem, -⟩ := ha
    refine ⟨pt, hmem, ?_⟩
    have hstory : .answered (negCodec pt) ∈ story := by
      rw [← k.heard ho]
      exact List.mem_append_left _ hmem
    cases k.allowed with
    | silent hf | lost hf hr => exact hf
    | refused hf => simp at hstory
    | up pt hf | talked pt hf hr => exact hf

def noProbe : ServerConfig := { ServerConfig.default with netCheck := { enabled := false } }

/-- A line that is busy is dialled again. -/
theorem signalling_busy : ∃ s : Signalling, s.attempt.phase.line = .busy ∧
    ∃ code detail, s.sip.final = some (.failed code detail) ∧ (code = 486 ∨ code = 600) := by
  have hrun : Run (step noProbe 0) Always (init "kutsu-1" ⟨"call-1", "600", ⟨.null, none, none⟩, 0, 1⟩ false)
      [.engine (Shared.init noProbe 0) .go, .engine (Shared.init noProbe 0) .go, .sip 0 (.mediaBuilt (.ok ())),
        .sip 1 (.made (.ok ())), .sip 1 (.replied true), .engine (Shared.init noProbe 1) (.invited (.ok ())),
        .engine (Shared.init noProbe 2) (.warmed (.ok ())), .sip 900 (.completed (.error (.failed 486 "Busy Here"))),
        .sip 900 .eventSent,
        .engine (Shared.init noProbe 901) (.ring (.terminated (.failed .busy "Busy Here")))] _ := run_of_exec rfl
  exact ⟨_, rfl, (signalling hrun).2.1 rfl⟩

end Signalling

end Kutsu
