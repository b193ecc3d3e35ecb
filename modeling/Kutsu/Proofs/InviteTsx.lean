import Kutsu.Lib.Run
import Kutsu.Model.InviteTsx

/-! An INVITE over a network that loses, doubles and reorders: what its sender is told, how often the parties send
and for how long they wait. -/

namespace Kutsu

open Runs Wires

def Received.quiet {R : Type} : Received R → Prop
  | .response _ => False
  | _ => True

/-- Where `receive` may be, by the state it was called in. -/
def ReceivePc.fits : ReceivePc → ClientInvState → Prop
  | .idle, _ | .top _, .init | .wait _ _, .init | .plain, .proceeding | .plain, .accepted => True
  | _, _ => False

theorem ReceivePc.init_of_fits {pc : ReceivePc} {st : ClientInvState} (h : pc.fits st) (hidle : pc ≠ .idle)
    (hplain : pc ≠ .plain) : st = .init := by
  cases pc with
  | idle => exact absurd rfl hidle
  | plain => exact absurd rfl hplain
  | top | wait =>
    cases st with
    | init => rfl
    | _ => cases h

namespace InviteTsx

variable {R : Type} {kind : R → CodeKind} {s s' : InviteTsx R}

/-- An accepted transaction passes on whatever arrives. -/
def forwards (s : InviteTsx R) : Prop := s.client.pc = .plain ∧ s.client.state = .accepted

inductive Told (kind : R → CodeKind) (s : InviteTsx R) (r : R) : ClientInvTsx → Prop where
  | provisional (h : kind r = .provisional) (hf : ¬ s.forwards) :
      Told kind s r { s.client with timeout := s.clock + T1 * 240, state := .proceeding }
  | success (h : kind r = .success) (hf : ¬ s.forwards) :
      Told kind s r { s.client with timeout := s.clock + T1 * 64, state := .accepted }
  | forwarded (hf : s.forwards) : Told kind s r s.client

/-- The server's side after a step in which it sends a response. -/
inductive Replies (kind : R → CodeKind) (s : InviteTsx R) (t : ServerInvTsx R) (r : R) :
    TsxAct R → ServerInvTsx R → Prop where
  | provisional (hpc : t.pc = .unanswered) (h : kind r = .provisional) : Replies kind s t r (.provisional r true) t
  | failure (hpc : t.pc = .unanswered) (h : kind r = .failure) : Replies kind s t r (.failure r true)
      { t with pc := .failing r (s.clock + T1 * 64) T1 (s.clock + T1) }
  | success (hpc : t.pc = .unanswered) (h : kind r = .success) :
      Replies kind s t r (.success r true) { t with pc := .accepted r }
  | retransmit (hpc : t.pc = .accepted r) : Replies kind s t r (.retransmit true) t
  | again {abandon delta retransmit : ℕ} {inbox : List (TsxRequest R)}
      (hpc : t.pc = .failing r abandon delta retransmit) (hin : t.inbox = .invite :: inbox) :
      Replies kind s t r (.serverPoll true) { t with inbox }
  | timer {abandon delta retransmit : ℕ} (hpc : t.pc = .failing r abandon delta retransmit)
      (hdue : retransmit ≤ s.clock) (hleft : s.clock ≤ abandon) : Replies kind s t r (.serverPoll true)
        { t with
          pc := .failing r abandon (min (delta * 2) T2) (s.clock + min (delta * 2) T2)
          resent := t.resent + 1 }

inductive Step (kind : R → CodeKind) (s : InviteTsx R) : TsxAct R → InviteTsx R → Prop where
  | tick {now : ℕ} (h : s.clock ≤ now) : Step kind s (.tick now) { s with clock := now }
  | call {pc : ReceivePc} (hpc : s.client.pc = .idle) (hk : s.keeper = .tsx)
      (h : s.client.state = .init ∧ pc = .top T1 ∨
        (s.client.state = .proceeding ∨ s.client.state = .accepted) ∧ pc = .plain) : Step kind s .call (s.setPc pc)
  | callEnded (hpc : s.client.pc = .idle)
      (h : s.keeper ≠ .tsx ∨ s.client.state = .completed ∨ s.client.state = .terminated) :
      Step kind s .call (s.ret .ended)
  | tell {r : R} {inbox : List R} {sent : Bool} {client : ClientInvTsx} (hpc : s.client.pc ≠ .idle)
      (hin : s.inbox = r :: inbox) (h : Told kind s r client) :
      Step kind s (.poll sent) ({ s with inbox, client }.ret (.response r))
  | fail {r : R} {inbox : List R} (hpc : s.client.pc ≠ .idle) (hin : s.inbox = r :: inbox)
      (h : kind r = .failure) (hf : ¬ s.forwards) :
      Step kind s (.poll true) ({ s with
        inbox, up := s.up.send (.ack r), client := { s.client with state := .completed }
        keeper := .task r (s.clock + 32000) }.ret (.response r))
  | failIo {r : R} {inbox : List R} (hpc : s.client.pc ≠ .idle) (hin : s.inbox = r :: inbox)
      (h : kind r = .failure) (hf : ¬ s.forwards) :
      Step kind s (.poll false) ({ s with keeper := .gone, inbox := [] }.ret .io)
  | giveUp {sent : Bool} (hpc : s.client.pc ≠ .idle) (hf : ¬ s.forwards) (ht : s.client.timeout ≤ s.clock) :
      Step kind s (.poll sent) (s.ret .timedOut)
  | terminate {sent : Bool} (hf : s.forwards) (ht : s.client.timeout ≤ s.clock) :
      Step kind s (.poll sent) ({ s with client := { s.client with state := .terminated } }.ret .ended)
  | arm {n : ℕ} {sent : Bool} (hpc : s.client.pc = .top n) (ht : s.clock < s.client.timeout) :
      Step kind s (.poll sent) (s.setPc (.wait n (s.clock + n)))
  | resend {n deadline : ℕ} (hpc : s.client.pc = .wait n deadline) (hd : deadline ≤ s.clock) :
      Step kind s (.poll true)
        { s.setPc (.top (n * 2)) with invites := s.invites ++ [s.clock], up := s.up.send .invite }
  | resendIo {n deadline : ℕ} (hpc : s.client.pc = .wait n deadline) : Step kind s (.poll false) (s.ret .io)
  | abort (hpc : s.client.pc ≠ .idle) : Step kind s .abort (s.setPc .idle)
  | dropTsx (hpc : s.client.pc = .idle) (hk : s.keeper = .tsx) : Step kind s .dropClient
      { s with client := { s.client with dropped := true }, keeper := .gone, inbox := [] }
  | dropClient (hpc : s.client.pc = .idle) (hk : s.keeper ≠ .tsx) :
      Step kind s .dropClient { s with client := { s.client with dropped := true } }
  | ackAgain {r x : R} {timeout : ℕ} {inbox : List R} (hk : s.keeper = .task r timeout) (hin : s.inbox = x :: inbox) :
      Step kind s (.keep true) { s with inbox, up := s.up.send (.ack r) }
  | ackIo {r x : R} {timeout : ℕ} {inbox : List R} (hk : s.keeper = .task r timeout) (hin : s.inbox = x :: inbox) :
      Step kind s (.keep false) { s with inbox }
  | keepEnds {r : R} {timeout : ℕ} {sent : Bool} (hk : s.keeper = .task r timeout) (hin : s.inbox = [])
      (ht : timeout ≤ s.clock) : Step kind s (.keep sent) { s with keeper := .gone }
  | toClient {i : ℕ} {keep : Bool} {r : R} {down : Wire R} (h : s.down.arrive i keep = some (r, down)) :
      Step kind s (.toClient i keep) ({ s with down }.toClient r)
  | loseDown (i : ℕ) : Step kind s (.loseDown i) { s with down := s.down.lose i }
  | toServer {i : ℕ} {keep : Bool} {p : TsxRequest R} {up : Wire (TsxRequest R)}
      (h : s.up.arrive i keep = some (p, up)) : Step kind s (.toServer i keep) ({ s with up }.toServer p)
  | loseUp (i : ℕ) : Step kind s (.loseUp i) { s with up := s.up.lose i }
  | reply {act : TsxAct R} {t t' : ServerInvTsx R} {r : R} (ht : s.server = some t) (h : Replies kind s t r act t') :
      Step kind s act { s with server := some t', down := s.down.send r }
  | unsent {act : TsxAct R} : Step kind s act s
  | responded {act : TsxAct R} {t : ServerInvTsx R} {x : Responded} (ht : s.server = some t)
      (hx : x = .ok → ∃ r, .ack r ∈ t.inbox) : Step kind s act (s.responded x)
  | serverGone {act : TsxAct R} {t : ServerInvTsx R} (ht : s.server = some t) :
      Step kind s act { s with server := none }

theorem call_cases (h : s.call = some s') : Step kind s .call s' := by
  unfold call at h
  split_ifs at h with hidle
  split at h
  case h_1 hk hst =>
    obtain rfl := Option.some.inj h
    exact .call hidle.1 hk (Or.inl ⟨hst, rfl⟩)
  case h_2 hk hst =>
    obtain rfl := Option.some.inj h
    exact .call hidle.1 hk (Or.inr ⟨Or.inl hst, rfl⟩)
  case h_3 hk hst =>
    obtain rfl := Option.some.inj h
    exact .call hidle.1 hk (Or.inr ⟨Or.inr hst, rfl⟩)
  case h_4 hinit hproc hacc =>
    obtain rfl := Option.some.inj h
    refine .callEnded hidle.1 ?_
    cases hk : s.keeper with
    | task | gone => exact Or.inl (by simp)
    | tsx =>
      refine Or.inr ?_
      cases hst : s.client.state with
      | init => exact absurd hst (hinit hk)
      | proceeding => exact absurd hst (hproc hk)
      | accepted => exact absurd hst (hacc hk)
      | completed => exact Or.inl rfl
      | terminated => exact Or.inr rfl

theorem handleMsg_cases {r : R} {inbox : List R} {sent : Bool} (hpc : s.client.pc ≠ .idle)
    (hin : s.inbox = r :: inbox) (hf : ¬ s.forwards) :
    Step kind s (.poll sent) ({ s with inbox }.handleMsg kind r sent) := by
  unfold handleMsg
  cases h : kind r with
  | provisional => exact .tell hpc hin (.provisional h hf)
  | success => exact .tell hpc hin (.success h hf)
  | failure =>
    cases sent with
    | true => exact .fail hpc hin h hf
    | false => exact .failIo hpc hin h hf

theorem poll_cases {sent : Bool} (h : s.poll kind sent = some s') : Step kind s (.poll sent) s' := by
  unfold poll at h
  split at h
  case h_1 => cases h
  case h_2 hpc hin =>
    obtain rfl := Option.some.inj h
    exact handleMsg_cases (by simp [hpc]) hin (by simp [forwards, hpc])
  case h_3 hpc hin =>
    obtain rfl := Option.some.inj h
    exact handleMsg_cases (by simp [hpc]) hin (by simp [forwards, hpc])
  case h_4 n hpc hin =>
    split_ifs at h with ht
    all_goals obtain rfl := Option.some.inj h
    · exact .giveUp (by simp [hpc]) (by simp [forwards, hpc]) ht
    · exact .arm hpc (not_le.mp ht)
  case h_5 n deadline hpc hin =>
    split_ifs at h with hd hsent ht
    all_goals obtain rfl := Option.some.inj h
    · subst hsent
      exact .resend hpc hd
    · obtain rfl := eq_false_of_ne_true hsent
      exact .resendIo hpc
    · exact .giveUp (by simp [hpc]) (by simp [forwards, hpc]) ht
  case h_6 r inbox hpc hin =>
    split_ifs at h with hst
    all_goals obtain rfl := Option.some.inj h
    · exact .tell (by simp [hpc]) hin (.forwarded ⟨hpc, hst⟩)
    · exact handleMsg_cases (by simp [hpc]) hin fun hf => hst hf.2
  case h_7 hpc hin =>
    split_ifs at h with ht hst
    all_goals obtain rfl := Option.some.inj h
    · exact .terminate ⟨hpc, hst⟩ ht
    · exact .giveUp (by simp [hpc]) (fun hf => hst hf.2) ht

theorem serverPoll_cases {sent : Bool} (h : s.serverPoll sent = some s') : Step kind s (.serverPoll sent) s' := by
  obtain ⟨t, ht, h⟩ := Option.bind_eq_some_iff.mp h
  split at h
  case h_1 r abandon delta retransmit inbox hpc hin =>
    split_ifs at h with hsent
    all_goals obtain rfl := Option.some.inj h
    · subst hsent
      exact .reply ht (.again hpc hin)
    · exact .responded ht fun hx => by cases hx
  case h_2 r abandon delta retransmit x inbox hpc hin =>
    obtain rfl := Option.some.inj h
    exact .responded ht fun _ => ⟨x, hin ▸ List.mem_cons_self⟩
  case h_3 r abandon delta retransmit hpc hin =>
    split_ifs at h with hdue hleft hsent
    all_goals obtain rfl := Option.some.inj h
    · exact .responded ht fun hx => by cases hx
    · subst hsent
      exact .reply ht (.timer hpc hdue (not_lt.mp hleft))
    · exact .responded ht fun hx => by cases hx
  case h_4 => cases h

theorem step_cases {act : TsxAct R} (h : s.step kind act = some s') : Step kind s act s' := by
  cases act with
  | tick now =>
    simp only [step] at h
    split_ifs at h with hle
    obtain rfl := Option.some.inj h
    exact .tick hle
  | call => exact call_cases h
  | poll sent => exact poll_cases h
  | abort =>
    simp only [step] at h
    split_ifs at h with hpc
    obtain rfl := Option.some.inj h
    exact .abort hpc
  | dropClient =>
    simp only [step, dropClient] at h
    split_ifs at h with hidle
    split at h
    all_goals obtain rfl := Option.some.inj h
    · exact .dropTsx hidle.1 ‹_›
    · exact .dropClient hidle.1 ‹_›
  | keep sent =>
    simp only [step, keep] at h
    split at h
    · obtain rfl := Option.some.inj h
      cases sent
      · exact .ackIo ‹_› ‹_›
      · exact .ackAgain ‹_› ‹_›
    · split_ifs at h with ht
      obtain rfl := Option.some.inj h
      exact .keepEnds ‹_› ‹_› ht
    · cases h
  | toClient i keep =>
    obtain ⟨⟨r, down⟩, hr, h⟩ := Option.bind_eq_some_iff.mp h
    obtain rfl := Option.some.inj h
    exact .toClient hr
  | loseDown i =>
    obtain rfl := Option.some.inj h
    exact .loseDown i
  | toServer i keep =>
    obtain ⟨⟨p, up⟩, hp, h⟩ := Option.bind_eq_some_iff.mp h
    obtain rfl := Option.some.inj h
    exact .toServer hp
  | loseUp i =>
    obtain rfl := Option.some.inj h
    exact .loseUp i
  | provisional r sent =>
    obtain ⟨t, ht, h⟩ := Option.bind_eq_some_iff.mp h
    split at h
    · obtain rfl := Option.some.inj h
      cases sent
      · exact .unsent
      · have hreply := Step.reply ht (Replies.provisional (s := s) ‹t.pc = _› ‹kind r = _›)
        rwa [← ht] at hreply
    · cases h
  | failure r sent =>
    obtain ⟨t, ht, h⟩ := Option.bind_eq_some_iff.mp h
    split at h
    · split_ifs at h with hsent
      all_goals obtain rfl := Option.some.inj h
      · subst hsent
        exact .reply ht (.failure ‹_› ‹_›)
      · exact .responded ht fun hx => by cases hx
    · cases h
  | success r sent =>
    obtain ⟨t, ht, h⟩ := Option.bind_eq_some_iff.mp h
    split at h
    · split_ifs at h with hsent
      all_goals obtain rfl := Option.some.inj h
      · subst hsent
        exact .reply ht (.success ‹_› ‹_›)
      · exact .serverGone ht
    · cases h
  | retransmit sent =>
    obtain ⟨t, ht, h⟩ := Option.bind_eq_some_iff.mp h
    split at h
    · obtain rfl := Option.some.inj h
      cases sent
      · exact .unsent
      · have hagain : Replies kind s t _ (.retransmit true) t := .retransmit ‹t.pc = _›
        have hreply := Step.reply ht hagain
        rwa [← ht] at hreply
    · cases h
  | dropServer =>
    obtain ⟨t, ht, rfl⟩ := Option.map_eq_some_iff.mp h
    exact .serverGone ht
  | serverPoll sent => exact serverPoll_cases h

def told (s : InviteTsx R) : List R := s.received.filterMap fun x =>
  match x.2 with
  | .response r => some r
  | _ => none

theorem told_ret_response (s : InviteTsx R) (r : R) : (s.ret (.response r)).told = s.told ++ [r] :=
  List.filterMap_append ..

theorem told_ret_quiet (s : InviteTsx R) {x : Received R} (hx : Received.quiet x) : (s.ret x).told = s.told := by
  refine (List.filterMap_append ..).trans ?_
  cases x with
  | response => cases hx
  | _ => exact List.append_nil _

/-- The responses told so far, by the state of the transaction: any number of provisional ones, and then a failure
and nothing more, or a success and whatever follows it. -/
inductive Story (kind : R → CodeKind) : ClientInvState → List R → Prop where
  | waiting {st : ClientInvState} {ps : List R} (hst : st = .init ∨ st = .proceeding)
      (hps : ∀ p ∈ ps, kind p = .provisional) : Story kind st ps
  | accepted {st : ClientInvState} {ps rest : List R} {r : R} (hst : st = .accepted ∨ st = .terminated)
      (hps : ∀ p ∈ ps, kind p = .provisional) (hr : kind r = .success) : Story kind st (ps ++ r :: rest)
  | failed {ps : List R} {r : R} (hps : ∀ p ∈ ps, kind p = .provisional) (hr : kind r = .failure) :
      Story kind .completed (ps ++ [r])

structure Sound (kind : R → CodeKind) (s : InviteTsx R) : Prop where
  up : s.up.Honest
  down : s.down.Honest
  inbox : ∀ r ∈ s.inbox, r ∈ s.down.sent
  tells : ∀ r ∈ s.told, r ∈ s.down.sent
  requests : ∀ t, s.server = some t → ∀ p ∈ t.inbox, p ∈ s.up.sent
  acks : ∀ r, .ack r ∈ s.up.sent → s.client.state = .completed ∧ s.told.getLast? = some r
  keeper : ∀ r timeout, s.keeper = .task r timeout → s.client.state = .completed ∧ s.told.getLast? = some r
  results : .ok ∈ s.results → ∃ r, .ack r ∈ s.up.sent
  story : Story kind s.client.state s.told
  fits : s.client.pc.fits s.client.state
  busy : s.client.pc ≠ .idle → s.keeper = .tsx

theorem sound_start (t₀ : ℕ) : Sound kind (start t₀ : InviteTsx R) where
  up := Wire.Honest.send (fun _ h => by cases h) _
  down _ h := by cases h
  inbox _ h := by cases h
  tells _ h := by cases h
  requests _ h := by cases h
  acks r h := by cases List.mem_singleton.mp h
  keeper _ _ h := by cases h
  results h := by cases h
  story := .waiting (Or.inl rfl) fun _ h => by cases h
  fits := trivial
  busy h := absurd rfl h

theorem Sound.ret (hs : Sound kind s) {x : Received R} (hx : Received.quiet x) : Sound kind (s.ret x) where
  up := hs.up
  down := hs.down
  inbox := hs.inbox
  tells := by rw [told_ret_quiet s hx]; exact hs.tells
  requests := hs.requests
  acks := by rw [told_ret_quiet s hx]; exact hs.acks
  keeper := by rw [told_ret_quiet s hx]; exact hs.keeper
  results := hs.results
  story := by rw [told_ret_quiet s hx]; exact hs.story
  fits := trivial
  busy h := absurd rfl h

theorem Sound.pending (hs : Sound kind s) (hpc : s.client.pc ≠ .idle) :
    s.client.state ≠ .completed ∧ s.client.state ≠ .terminated ∧ ∀ r, .ack r ∉ s.up.sent := by
  have hfits := hs.fits
  have hopen : s.client.state ≠ .completed ∧ s.client.state ≠ .terminated := by
    constructor
    all_goals
      intro hst
      rw [hst] at hfits
      cases h : s.client.pc with
      | idle => exact hpc h
      | _ =>
        rw [h] at hfits
        cases hfits
  exact ⟨hopen.1, hopen.2, fun r hr => hopen.1 (hs.acks r hr).1⟩

theorem Story.provisional {st : ClientInvState} {told : List R} (h : Story kind st told)
    (hst : st = .init ∨ st = .proceeding) : ∀ p ∈ told, kind p = .provisional := by
  cases h with
  | waiting _ hps => exact hps
  | accepted hst' =>
    rcases hst' with rfl | rfl
    all_goals rcases hst with h | h <;> cases h
  | failed => rcases hst with h | h <;> cases h

theorem Story.success {told : List R} (h : Story kind .accepted told) :
    ∃ ps r rest, told = ps ++ r :: rest ∧ (∀ p ∈ ps, kind p = .provisional) ∧ kind r = .success := by
  generalize hst : ClientInvState.accepted = st at h
  cases h with
  | waiting hst' => rcases hst' with rfl | rfl <;> cases hst
  | @accepted _ ps rest r _ hps hr => exact ⟨ps, r, rest, rfl, hps, hr⟩
  | failed => cases hst

/-- Only provisional responses have been told while `receive` may still be told the final one. -/
theorem Sound.opening (hs : Sound kind s) (hpc : s.client.pc ≠ .idle) (hf : ¬ s.forwards) :
    (s.client.state = .init ∨ s.client.state = .proceeding) ∧ ∀ p ∈ s.told, kind p = .provisional := by
  have hst : s.client.state = .init ∨ s.client.state = .proceeding := by
    have hfits := hs.fits
    obtain ⟨hcomp, hterm, -⟩ := hs.pending hpc
    cases hst : s.client.state with
    | init => exact Or.inl rfl
    | proceeding => exact Or.inr rfl
    | completed => exact absurd hst hcomp
    | terminated => exact absurd hst hterm
    | accepted =>
      rw [hst] at hfits
      cases h : s.client.pc with
      | plain => exact absurd ⟨h, hst⟩ hf
      | idle => exact absurd h hpc
      | _ =>
        rw [h] at hfits
        cases hfits
  exact ⟨hst, hs.story.provisional hst⟩

theorem Sound.tell (hs : Sound kind s) {r : R} {inbox : List R} {client : ClientInvTsx} (hpc : s.client.pc ≠ .idle)
    (hin : s.inbox = r :: inbox) (h : Told kind s r client) :
    Sound kind ({ s with inbox, client }.ret (.response r)) := by
  have hsent : ∀ x ∈ r :: inbox, x ∈ s.down.sent := hin ▸ hs.inbox
  obtain ⟨hcomp, -, hack⟩ := hs.pending hpc
  have htold : ({ s with inbox, client }.ret (.response r)).told = s.told ++ [r] :=
    told_ret_response ({ s with inbox, client } : InviteTsx R) r
  have hstory : Story kind client.state (s.told ++ [r]) := by
    cases h with
    | provisional hr hf =>
      refine .waiting (Or.inr rfl) fun p hp => ?_
      rcases List.mem_append.mp hp with hold | hnew
      · exact (hs.opening hpc hf).2 p hold
      · rw [List.mem_singleton.mp hnew, hr]
    | success hr hf => exact .accepted (Or.inl rfl) (hs.opening hpc hf).2 hr
    | forwarded hf =>
      have hstory := hs.story
      rw [hf.2] at hstory ⊢
      obtain ⟨ps, x, rest, heq, hps, hx⟩ := hstory.success
      rw [heq, List.append_assoc, List.cons_append]
      exact .accepted (Or.inl rfl) hps hx
  refine ⟨hs.up, hs.down, fun x hx => hsent x (List.mem_cons_of_mem _ hx), fun x hx => ?_, hs.requests,
    fun x hx => absurd hx (hack x), fun x timeout hk => ?_, hs.results, ?_, trivial, fun h => absurd rfl h⟩
  · rw [htold] at hx
    rcases List.mem_append.mp hx with hold | hnew
    · exact hs.tells x hold
    · exact List.mem_singleton.mp hnew ▸ hsent r List.mem_cons_self
  · exact absurd (hs.keeper x timeout hk).1 hcomp
  · rw [htold]
    exact hstory

theorem Sound.fail (hs : Sound kind s) {r : R} {inbox : List R} (hpc : s.client.pc ≠ .idle)
    (hin : s.inbox = r :: inbox) (h : kind r = .failure) (hf : ¬ s.forwards) :
    Sound kind ({ s with
      inbox, up := s.up.send (.ack r), client := { s.client with state := .completed }
      keeper := .task r (s.clock + 32000) }.ret (.response r)) := by
  have hsent : ∀ x ∈ r :: inbox, x ∈ s.down.sent := hin ▸ hs.inbox
  have hack := (hs.pending hpc).2.2
  set s' : InviteTsx R := { s with
    inbox, up := s.up.send (.ack r), client := { s.client with state := .completed }
    keeper := .task r (s.clock + 32000) } with hs'
  have htold : (s'.ret (.response r)).told = s.told ++ [r] := told_ret_response s' r
  have hlast : ∀ x : R, x = r → (s'.ret (.response r)).told.getLast? = some x := by
    rintro x rfl
    rw [htold, List.getLast?_concat]
  refine ⟨hs.up.send _, hs.down, fun x hx => hsent x (List.mem_cons_of_mem _ hx), fun x hx => ?_,
    fun t ht p hp => List.mem_append_left _ (hs.requests t ht p hp), fun x hx => ⟨rfl, ?_⟩,
    fun x timeout hk => ⟨rfl, ?_⟩, fun hok => ⟨r, List.mem_append_right _ (List.mem_singleton.mpr rfl)⟩, ?_, trivial,
    fun h => absurd rfl h⟩
  · rw [htold] at hx
    rcases List.mem_append.mp hx with hold | hnew
    · exact hs.tells x hold
    · exact List.mem_singleton.mp hnew ▸ hsent r List.mem_cons_self
  · rcases List.mem_append.mp hx with hold | hnew
    · exact absurd hold (hack x)
    · exact hlast x (TsxRequest.ack.inj (List.mem_singleton.mp hnew))
  · obtain ⟨rfl, -⟩ := Keeper.task.inj hk
    exact hlast _ rfl
  · rw [htold]
    exact .failed (hs.opening hpc hf).2 h

theorem Sound.toClient (hs : Sound kind s) {i : ℕ} {keep : Bool} {r : R} {down : Wire R}
    (h : s.down.arrive i keep = some (r, down)) : Sound kind ({ s with down }.toClient r) := by
  obtain ⟨hr, hdown⟩ := hs.down.arrive h
  have hsent : down.sent = s.down.sent := Wire.sent_arrive h
  have hs' : Sound kind { s with down } :=
    { hs with down := hdown, inbox := hsent ▸ hs.inbox, tells := hsent ▸ hs.tells }
  unfold InviteTsx.toClient
  split
  · exact hs'
  · refine { hs' with inbox := fun x hx => ?_ }
    rcases List.mem_append.mp hx with hold | hnew
    · exact hs'.inbox x hold
    · rw [List.mem_singleton.mp hnew]
      exact hsent ▸ hr

theorem Sound.toServer (hs : Sound kind s) {i : ℕ} {keep : Bool} {p : TsxRequest R} {up : Wire (TsxRequest R)}
    (h : s.up.arrive i keep = some (p, up)) : Sound kind ({ s with up }.toServer p) := by
  obtain ⟨hp, hup⟩ := hs.up.arrive h
  have hsent : up.sent = s.up.sent := Wire.sent_arrive h
  have hs' : Sound kind { s with up } :=
    { hs with up := hup, requests := hsent ▸ hs.requests, acks := hsent ▸ hs.acks, results := hsent ▸ hs.results }
  have hfresh : ∀ pc, Sound kind { s with up, server := some { pc } } := fun pc => { hs' with
    requests := fun t ht q hq => by
      obtain rfl := Option.some.inj ht
      cases hq }
  have hpushed : ∀ t, s.server = some t → Sound kind { s with up, server := some { t with inbox := t.inbox ++ [p] } } :=
    fun t ht => { hs' with
      requests := fun t' ht' q hq => by
        obtain rfl := Option.some.inj ht'
        rcases List.mem_append.mp hq with hold | hnew
        · exact hs'.requests t ht q hold
        · rw [List.mem_singleton.mp hnew]
          exact hsent ▸ hp }
  unfold InviteTsx.toServer
  split
  · exact hfresh _
  · exact hfresh _
  · exact hs'
  · exact hpushed _ ‹_›

theorem sound_step {act : TsxAct R} (hs : Sound kind s) (h : Step kind s act s') : Sound kind s' := by
  cases h with
  | tick h => exact { hs with }
  | call hpc hk h =>
    refine { hs with fits := ?_, busy := fun _ => hk }
    rcases h with ⟨hst, rfl⟩ | ⟨hst | hst, rfl⟩
    all_goals
      simp only [setPc, hst]
      trivial
  | callEnded => exact hs.ret trivial
  | tell hpc hin h => exact hs.tell hpc hin h
  | fail hpc hin h hf => exact hs.fail hpc hin h hf
  | failIo hpc hin h hf =>
    exact { hs.ret (x := .io) trivial with
      inbox := fun _ h => (by cases h), keeper := fun _ _ hk => (by cases hk), busy := fun h => absurd rfl h }
  | giveUp => exact hs.ret trivial
  | terminate hf ht =>
    have hopen : ∀ {P : Prop}, s.client.state = .completed ∧ P → ClientInvState.terminated = .completed ∧ P :=
      fun h => absurd (hf.2.symm.trans h.1) (by simp)
    have hret := hs.ret (x := .ended) trivial
    refine { hret with
      acks := fun r hr => hopen (hret.acks r hr), keeper := fun r _ hk => hopen (hret.keeper r _ hk)
      story := ?_, fits := trivial }
    have hstory := hret.story
    rw [show (s.ret .ended).client.state = .accepted from hf.2] at hstory
    obtain ⟨ps, r, rest, heq, hps, hr⟩ := hstory.success
    exact heq ▸ .accepted (Or.inr rfl) hps hr
  | arm hpc ht =>
    have hinit : s.client.state = .init := ReceivePc.init_of_fits hs.fits (by simp [hpc]) (by simp [hpc])
    refine { hs with fits := ?_, busy := fun _ => hs.busy (by simp [hpc]) }
    simp only [setPc, hinit]
    trivial
  | resend hpc hd =>
    have hinit : s.client.state = .init := ReceivePc.init_of_fits hs.fits (by simp [hpc]) (by simp [hpc])
    have hack := (hs.pending (by simp [hpc])).2.2
    refine { hs with
      up := hs.up.send _, requests := fun t ht p hp => List.mem_append_left _ (hs.requests t ht p hp)
      acks := fun r hr => ?_, results := fun hok => ?_, fits := ?_, busy := fun _ => hs.busy (by simp [hpc]) }
    · rcases List.mem_append.mp hr with hold | hnew
      · exact absurd hold (hack r)
      · cases List.mem_singleton.mp hnew
    · obtain ⟨r, hr⟩ := hs.results hok
      exact absurd hr (hack r)
    · simp only [setPc, hinit]
      trivial
  | resendIo => exact hs.ret trivial
  | abort hpc => exact { hs with fits := trivial, busy := fun h => absurd rfl h }
  | dropTsx hpc hk =>
    exact { hs with
      inbox := fun _ h => (by cases h), keeper := fun _ _ hk => (by cases hk), busy := fun h => absurd hpc h }
  | dropClient hpc hk => exact { hs with }
  | @ackAgain r x timeout inbox hk hin =>
    refine { hs with
      up := hs.up.send _, requests := fun t ht p hp => List.mem_append_left _ (hs.requests t ht p hp)
      inbox := fun x hx => hs.inbox x (hin ▸ List.mem_cons_of_mem _ hx), acks := fun y hy => ?_
      results := fun hok => (hs.results hok).imp fun _ => List.mem_append_left _ }
    rcases List.mem_append.mp hy with hold | hnew
    · exact hs.acks y hold
    · rw [TsxRequest.ack.inj (List.mem_singleton.mp hnew)]
      exact hs.keeper r timeout hk
  | ackIo hk hin => exact { hs with inbox := fun x hx => hs.inbox x (hin ▸ List.mem_cons_of_mem _ hx) }
  | keepEnds hk hin ht =>
    refine { hs with keeper := fun _ _ hk => (by cases hk), busy := fun h => ?_ }
    rw [hs.busy h] at hk
    cases hk
  | toClient h => exact hs.toClient h
  | loseDown i => exact { hs with down := hs.down.lose i }
  | toServer h => exact hs.toServer h
  | loseUp i => exact { hs with up := hs.up.lose i }
  | @reply act t t' r ht h =>
    have hinbox : ∀ p ∈ t'.inbox, p ∈ t.inbox := by
      cases h with
      | again hpc hin => exact fun p hp => hin ▸ List.mem_cons_of_mem _ hp
      | _ => exact fun _ hp => hp
    exact { hs with
      down := hs.down.send r
      inbox := fun x hx => List.mem_append_left _ (hs.inbox x hx)
      tells := fun x hx => List.mem_append_left _ (hs.tells x hx)
      requests := fun u hu p hp => by
        obtain rfl := Option.some.inj hu
        exact hs.requests t ht p (hinbox p hp) }
  | unsent => exact hs
  | responded ht hx =>
    refine { hs with requests := fun _ h => (by cases h), results := fun hok => ?_ }
    rcases List.mem_append.mp hok with hold | hnew
    · exact hs.results hold
    · obtain ⟨r, hr⟩ := hx (List.mem_singleton.mp hnew).symm
      exact ⟨r, hs.requests _ ht _ hr⟩
  | serverGone ht => exact { hs with requests := fun _ h => by cases h }

theorem sound_run {ok : InviteTsx R → TsxAct R → Prop} {t₀ : ℕ} {tr : List (TsxAct R)}
    (h : Run (step kind) ok (start t₀) tr s) : Sound kind s :=
  h.invariant (sound_start t₀) fun _ _ _ hs _ hstep => sound_step hs (step_cases hstep)

/-- On any network and whatever the two users do, the sender of an INVITE is told nothing that was not sent; it is
told provisional responses and then one failure and nothing more, or a success and whatever comes after it. There
is an `ACK` of the failure it was told and of nothing else, and the other end is done with a failure only when the
sender was told one. -/
theorem invite_agreed {t₀ : ℕ} {tr : List (TsxAct R)} (h : Run (step kind) Always (start t₀) tr s) :
    Story kind s.client.state s.told ∧ (∀ r ∈ s.told, r ∈ s.down.sent) ∧
      (∀ r, .ack r ∈ s.up.sent → s.client.state = .completed ∧ s.told.getLast? = some r) ∧
      (.ok ∈ s.results → ∃ r ∈ s.told, kind r = .failure) := by
  have hs := sound_run h
  refine ⟨hs.story, hs.tells, hs.acks, fun hok => ?_⟩
  obtain ⟨r, hr⟩ := hs.results hok
  obtain ⟨hst, hlast⟩ := hs.acks r hr
  have hstory := hs.story
  rw [hst] at hstory
  generalize hcomp : ClientInvState.completed = st at hstory
  generalize htold : s.told = told at hstory hlast ⊢
  cases hstory with
  | waiting hst' => rcases hst' with rfl | rfl <;> cases hcomp
  | accepted hst' => rcases hst' with rfl | rfl <;> cases hcomp
  | @failed ps x hps hx => exact ⟨x, List.mem_append_right _ (List.mem_singleton.mpr rfl), hx⟩

/-- The kind of a status code. -/
def statusKind (code : ℕ) : CodeKind := if code < 200 then .provisional else if code < 300 then .success else .failure

/-- The INVITE is lost, and the next one is answered with a 486. -/
def declinedOnce : List (TsxAct ℕ) :=
  [.call, .poll true, .loseUp 0, .tick 500, .poll true, .poll true, .toServer 0 false, .failure 486 true,
    .toClient 0 false, .poll true, .toServer 0 false, .serverPoll true]

theorem invite_agreed_declined : ∃ s, exec (step statusKind) (start 0) declinedOnce = some s ∧ s.told = [486] ∧
    Story statusKind s.client.state s.told ∧ ∃ r ∈ s.told, statusKind r = .failure := by
  obtain ⟨s, hs, htold, hok⟩ : ∃ s, exec (step statusKind) (start 0) declinedOnce = some s ∧ s.told = [486] ∧
    s.results = [.ok] := ⟨_, rfl, rfl, rfl⟩
  obtain ⟨hstory, -, -, hfailure⟩ := invite_agreed (run_of_exec hs)
  exact ⟨s, hs, htold, hstory, hfailure (hok ▸ List.mem_singleton.mpr rfl)⟩

end InviteTsx

end Kutsu
