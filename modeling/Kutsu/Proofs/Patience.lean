import Mathlib.Algebra.Order.Ring.Nat
import Kutsu.Proofs.InviteTsx

/-! How often an INVITE and the answer to it are sent, when, and how long the sender waits before it gives up. -/

namespace Kutsu

open Runs Wires

/-- How much may still be sent because of a request: an INVITE is declined, again at most ten times, and each time
an `ACK` may answer. -/
def TsxRequest.weight {R : Type} : TsxRequest R → ℕ
  | .invite => 22
  | .ack _ => 0

/-- The same for a request that waits in a transaction. -/
def TsxRequest.echo {R : Type} : TsxRequest R → ℕ
  | .invite => 2
  | .ack _ => 0

def ServerInvTsx.load {R : Type} (t : ServerInvTsx R) : ℕ :=
  match t.pc with
  | .unanswered => 22 + (t.inbox.map TsxRequest.echo).sum
  | .failing _ _ _ _ => 2 * (10 - t.resent) + (t.inbox.map TsxRequest.echo).sum
  | .accepted _ | .stray => 0

namespace InviteTsx

variable {R : Type} {kind : R → CodeKind} {s s' : InviteTsx R} {act : TsxAct R} {t₀ : ℕ}

def view (s : InviteTsx R) : ℕ × ClientInvTsx × List ℕ × List (ℕ × Received R) :=
  (s.clock, s.client, s.invites, s.received)

theorem view_toClient (s : InviteTsx R) (r : R) : (s.toClient r).view = s.view := by
  unfold toClient
  split
  all_goals rfl

theorem view_toServer (s : InviteTsx R) (p : TsxRequest R) : (s.toServer p).view = s.view := by
  unfold toServer
  split
  all_goals rfl

/-- The INVITEs: each is sent half a second after the one before it or later, and the loop was at its head once
more before the 32 s were over. -/
structure Paced (t₀ : ℕ) (s : InviteTsx R) : Prop where
  apart : s.invites.IsChain fun a b => a + T1 ≤ b
  latest : ∃ last, s.invites.getLast? = some last ∧ t₀ + T1 * (s.invites.length - 1) ≤ last ∧ last ≤ s.clock ∧
    ∀ n deadline, s.client.pc = .wait n deadline → last + T1 ≤ deadline ∧ last < t₀ + T1 * 64
  length : s.invites.length ≤ 65
  longer : ∀ n, s.client.pc = .top n ∨ (∃ deadline, s.client.pc = .wait n deadline) → T1 ≤ n
  timeout : s.client.state = .init → s.client.timeout = t₀ + T1 * 64

theorem paced_start (t₀ : ℕ) : Paced t₀ (start t₀ : InviteTsx R) where
  apart := .singleton _
  latest := ⟨t₀, rfl, le_refl _, le_refl _, fun _ _ h => by cases h⟩
  length := by simp [start]
  longer _ h := by rcases h with h | ⟨_, h⟩ <;> cases h
  timeout _ := rfl

theorem Paced.still (hp : Paced t₀ s) (hinv : s'.invites = s.invites) (hclock : s.clock ≤ s'.clock)
    (hpc : s'.client.pc = s.client.pc ∨ s'.client.pc = .idle)
    (hst : s'.client.state = .init → s.client.state = .init ∧ s'.client.timeout = s.client.timeout) : Paced t₀ s' := by
  obtain ⟨last, hlast, hlow, hle, hwait⟩ := hp.latest
  have hkeep : ∀ pc, pc ≠ .idle → s'.client.pc = pc → s.client.pc = pc := by
    rintro pc hne h
    rcases hpc with heq | hidle
    · rw [← heq, h]
    · exact absurd (h.symm.trans hidle) hne
  exact ⟨hinv ▸ hp.apart, ⟨last, hinv ▸ hlast, hinv ▸ hlow, hle.trans hclock,
      fun n deadline h => hwait n deadline (hkeep _ (by simp) h)⟩, hinv ▸ hp.length,
    fun n h => hp.longer n (h.imp (hkeep _ (by simp)) fun ⟨d, h⟩ => ⟨d, hkeep _ (by simp) h⟩),
    fun h => (hst h).2.trans (hp.timeout (hst h).1)⟩

theorem Paced.of_view (hp : Paced t₀ s) (h : s'.view = s.view) : Paced t₀ s' := by
  simp only [view, Prod.mk.injEq] at h
  obtain ⟨hclock, hclient, hinv, -⟩ := h
  exact hp.still hinv hclock.ge (Or.inl (by rw [hclient])) fun hst => ⟨hclient ▸ hst, by rw [hclient]⟩

theorem Paced.resend (hp : Paced t₀ s) {n deadline : ℕ} (hpc : s.client.pc = .wait n deadline)
    (hd : deadline ≤ s.clock) (hinit : s.client.state = .init) (up : Wire (TsxRequest R)) :
    Paced t₀ { s.setPc (.top (n * 2)) with invites := s.invites ++ [s.clock], up } := by
  obtain ⟨last, hlast, hlow, hle, hwait⟩ := hp.latest
  obtain ⟨hgap, hopen⟩ := hwait n deadline hpc
  have hlen : (s.invites ++ [s.clock]).length = s.invites.length + 1 := List.length_append
  have hpos : 0 < s.invites.length := List.length_pos_iff.mpr (by rintro h; rw [h] at hlast; cases hlast)
  refine ⟨List.IsChain.append hp.apart (.singleton _) ?_, ⟨s.clock, List.getLast?_concat, ?_, le_refl _, ?_⟩, ?_, ?_,
    fun _ => hp.timeout hinit⟩
  · intro a ha b hb
    obtain rfl := Option.some.inj (hlast.symm.trans ha)
    obtain rfl := Option.some.inj hb
    exact hgap.trans hd
  · rw [hlen]
    have : T1 * (s.invites.length + 1 - 1) = T1 * (s.invites.length - 1) + T1 := by
      rw [← Nat.mul_succ, Nat.succ_eq_add_one, Nat.sub_add_cancel hpos, Nat.add_sub_cancel]
    omega
  · intro m e h
    cases h
  · rw [hlen]
    have : T1 * (s.invites.length - 1) < T1 * 64 := by omega
    have := Nat.lt_of_mul_lt_mul_left this
    omega
  · rintro m (h | ⟨_, h⟩)
    · obtain rfl := ReceivePc.top.inj h
      have := hp.longer n (Or.inr ⟨deadline, hpc⟩)
      omega
    · cases h

theorem paced_step (hs : Sound kind s) (hp : Paced t₀ s) (h : Step kind s act s') : Paced t₀ s' := by
  cases h with
  | tick h => exact hp.still rfl h (Or.inl rfl) fun hst => ⟨hst, rfl⟩
  | call hpc hk h =>
    obtain ⟨last, hlast, hlow, hle, -⟩ := hp.latest
    refine ⟨hp.apart, ⟨last, hlast, hlow, hle, ?_⟩, hp.length, ?_, hp.timeout⟩
    all_goals
      rcases h with ⟨-, rfl⟩ | ⟨-, rfl⟩
      all_goals simp [setPc]
  | tell hpc hin h =>
    refine hp.still rfl (le_refl _) (Or.inr rfl) fun hst => ?_
    cases h with
    | provisional => cases hst
    | success => cases hst
    | forwarded hf => exact absurd (hf.2.symm.trans hst) (by simp)
  | fail => exact hp.still rfl (le_refl _) (Or.inr rfl) fun hst => by cases hst
  | terminate => exact hp.still rfl (le_refl _) (Or.inr rfl) fun hst => by cases hst
  | callEnded | failIo | giveUp | resendIo | abort =>
    exact hp.still rfl (le_refl _) (Or.inr rfl) fun hst => ⟨hst, rfl⟩
  | @arm n sent hpc ht =>
    obtain ⟨last, hlast, hlow, hle, -⟩ := hp.latest
    have hinit : s.client.state = .init := ReceivePc.init_of_fits hs.fits (by simp [hpc]) (by simp [hpc])
    have hto := hp.timeout hinit
    have hn := hp.longer n (Or.inl hpc)
    refine ⟨hp.apart, ⟨last, hlast, hlow, hle, fun m deadline h => ?_⟩, hp.length, fun m h => ?_, hp.timeout⟩
    · obtain ⟨rfl, rfl⟩ := ReceivePc.wait.inj h
      omega
    · rcases h with h | ⟨_, h⟩
      · cases h
      · exact (ReceivePc.wait.inj h).1 ▸ hn
  | @resend n deadline hpc hd =>
    exact hp.resend hpc hd (ReceivePc.init_of_fits hs.fits (by simp [hpc]) (by simp [hpc])) _
  | dropTsx | dropClient => exact hp.still rfl (le_refl _) (Or.inl rfl) fun hst => ⟨hst, rfl⟩
  | toClient => exact hp.of_view (view_toClient _ _)
  | toServer => exact hp.of_view (view_toServer _ _)
  | _ => exact hp.of_view rfl

/-- The client gives up 32 s after the first INVITE at the earliest, and 2 minutes after the last response. -/
structure Patient (t₀ : ℕ) (s : InviteTsx R) : Prop where
  start : t₀ ≤ s.clock
  answered : ∀ t r, (t, .response r) ∈ s.received →
    s.client.state ≠ .init ∧ (s.client.state = .proceeding → t + T1 * 240 ≤ s.client.timeout)
  timeout : s.client.state = .init ∨ s.client.state = .proceeding → t₀ + T1 * 64 ≤ s.client.timeout
  past : ∀ x ∈ s.received, x.1 ≤ s.clock
  gaveUp : ∀ t, (t, .timedOut) ∈ s.received → t₀ + T1 * 64 ≤ t
  after : s.received.Pairwise fun x y => ∀ r, x.2 = .response r → y.2 = .timedOut → x.1 + T1 * 240 ≤ y.1

theorem patient_start (t₀ : ℕ) : Patient t₀ (start t₀ : InviteTsx R) where
  start := le_refl _
  answered _ _ h := by cases h
  timeout _ := le_refl _
  past _ h := by cases h
  gaveUp _ h := by cases h
  after := .nil

theorem Patient.still (hp : Patient t₀ s) (hclock : s.clock ≤ s'.clock) (hrec : s'.received = s.received)
    (hst : s'.client.state = s.client.state ∨ s'.client.state = .completed ∨ s'.client.state = .terminated)
    (hto : s'.client.timeout = s.client.timeout) : Patient t₀ s' := by
  refine ⟨hp.start.trans hclock, fun t r h => ?_, fun h => ?_, fun x hx => (hp.past x (hrec ▸ hx)).trans hclock,
    hrec ▸ hp.gaveUp, hrec ▸ hp.after⟩
  · have hold := hp.answered t r (hrec ▸ h)
    rcases hst with heq | heq | heq
    · rw [heq, hto]
      exact hold
    all_goals simp [heq]
  · rcases hst with heq | heq | heq
    · rw [hto]
      exact hp.timeout (heq ▸ h)
    all_goals simp [heq] at h

theorem Patient.of_view (hp : Patient t₀ s) (h : s'.view = s.view) : Patient t₀ s' := by
  simp only [view, Prod.mk.injEq] at h
  obtain ⟨hclock, hclient, -, hrec⟩ := h
  exact hp.still hclock.ge hrec (Or.inl (by rw [hclient])) (by rw [hclient])

theorem Patient.ret (hp : Patient t₀ s) {x : Received R}
    (hresp : ∀ r, x = .response r →
      s.client.state ≠ .init ∧ (s.client.state = .proceeding → s.clock + T1 * 240 ≤ s.client.timeout))
    (hto : x = .timedOut → t₀ + T1 * 64 ≤ s.clock ∧ ∀ t r, (t, .response r) ∈ s.received → t + T1 * 240 ≤ s.clock) :
    Patient t₀ (s.ret x) := by
  refine ⟨hp.start, fun t r h => ?_, hp.timeout, fun y hy => ?_, fun t h => ?_, ?_⟩
  · rcases List.mem_append.mp h with hold | hnew
    · exact hp.answered t r hold
    · obtain ⟨rfl, hx⟩ := Prod.mk.inj (List.mem_singleton.mp hnew)
      exact hresp r hx.symm
  · rcases List.mem_append.mp hy with hold | hnew
    · exact hp.past y hold
    · rw [List.mem_singleton.mp hnew]
      exact le_refl _
  · rcases List.mem_append.mp h with hold | hnew
    · exact hp.gaveUp t hold
    · obtain ⟨rfl, hx⟩ := Prod.mk.inj (List.mem_singleton.mp hnew)
      exact (hto hx.symm).1
  · refine List.pairwise_append.mpr ⟨hp.after, List.pairwise_singleton _ _, fun y hy z hz r hr hz' => ?_⟩
    obtain rfl := List.mem_singleton.mp hz
    exact (hto hz').2 y.1 r (hr ▸ hy)

theorem Patient.tell (hp : Patient t₀ s) {r : R} {inbox : List R} {client : ClientInvTsx}
    (h : Told kind s r client) : Patient t₀ ({ s with inbox, client }.ret (.response r)) := by
  have hstart := hp.start
  have hclient : Patient t₀ { s with inbox, client } := by
    refine ⟨hp.start, fun t x hx => ?_, fun hst => ?_, hp.past, hp.gaveUp, hp.after⟩
    · have hpast : t ≤ s.clock := hp.past _ hx
      cases h with
      | provisional => exact ⟨by simp, fun _ => Nat.add_le_add_right hpast _⟩
      | success => exact ⟨by simp, fun h => by cases h⟩
      | forwarded hf => exact hp.answered t x hx
    · cases h with
      | provisional => simp only [T1]; omega
      | success => rcases hst with hst | hst <;> cases hst
      | forwarded hf => exact hp.timeout hst
  refine hclient.ret (fun x hx => ?_) fun hx => by cases hx
  cases h with
  | provisional => exact ⟨by simp, fun _ => le_refl _⟩
  | success => exact ⟨by simp, fun h => by cases h⟩
  | forwarded hf => exact ⟨by simp [hf.2], fun h => absurd (hf.2.symm.trans h) (by simp)⟩

theorem patient_step (hs : Sound kind s) (hp : Patient t₀ s) (h : Step kind s act s') : Patient t₀ s' := by
  cases h with
  | tick h => exact hp.still h rfl (Or.inl rfl) rfl
  | tell hpc hin h => exact hp.tell h
  | @fail r inbox hpc hin h hf =>
    have hdone : Patient t₀ { s with
        inbox, up := s.up.send (.ack r), client := { s.client with state := .completed }
        keeper := .task r (s.clock + 32000) } := hp.still (le_refl _) rfl (Or.inr (Or.inl rfl)) rfl
    exact hdone.ret (fun _ _ => ⟨by simp, fun h => by cases h⟩) fun hx => by cases hx
  | terminate hf ht =>
    have hdone : Patient t₀ { s with client := { s.client with state := .terminated } } :=
      hp.still (le_refl _) rfl (Or.inr (Or.inr rfl)) rfl
    exact hdone.ret (fun _ hx => by cases hx) fun hx => by cases hx
  | giveUp hpc hf ht =>
    obtain ⟨hst, -⟩ := hs.opening hpc hf
    refine hp.ret (fun _ hx => by cases hx) fun _ => ⟨(hp.timeout hst).trans ht, fun t r hin => ?_⟩
    obtain ⟨hne, hle⟩ := hp.answered t r hin
    exact (hle (hst.resolve_left hne)).trans ht
  | callEnded | resendIo => exact hp.ret (fun _ hx => by cases hx) fun hx => by cases hx
  | failIo =>
    have hgone : Patient t₀ { s with keeper := .gone, inbox := [] } := hp.of_view rfl
    exact hgone.ret (fun _ hx => by cases hx) fun hx => by cases hx
  | toClient => exact hp.of_view (view_toClient _ _)
  | toServer => exact hp.of_view (view_toServer _ _)
  | _ => exact hp.still (le_refl _) rfl (Or.inl rfl) rfl

/-- `receive` is not dropped while it waits, and the socket takes what the client sends. -/
def Undisturbed (_ : InviteTsx R) : TsxAct R → Prop
  | .abort => False
  | .poll sent => sent = true
  | _ => True

instance (s : InviteTsx R) (a : TsxAct R) : Decidable (Undisturbed s a) :=
  match a with
  | .abort => .isFalse id
  | .poll sent => inferInstanceAs (Decidable (sent = true))
  | .tick _ | .call | .dropClient | .keep _ | .toClient _ _ | .loseDown _ | .toServer _ _ | .loseUp _ | .provisional _ _
  | .failure _ _ | .success _ _ | .retransmit _ | .dropServer | .serverPoll _ => .isTrue trivial

/-- The waits double: the INVITE after `k` others is not sent before `2 ^ k - 1` half seconds have passed. -/
structure Doubling (t₀ : ℕ) (s : InviteTsx R) : Prop where
  start : t₀ ≤ s.clock
  sched : ∀ k t, s.invites[k]? = some t → t₀ + T1 * (2 ^ k - 1) ≤ t
  nonempty : 0 < s.invites.length
  length : s.invites.length ≤ 8
  timeout : s.client.state = .init → s.client.timeout = t₀ + T1 * 64
  idle : s.client.pc = .idle → s.client.state = .init → s.invites.length = 1 ∨ t₀ + T1 * 64 ≤ s.clock
  top : ∀ n, s.client.pc = .top n →
    (n = T1 * 2 ^ (s.invites.length - 1) ∧ t₀ + T1 * (2 ^ (s.invites.length - 1) - 1) ≤ s.clock) ∨
      t₀ + T1 * 64 ≤ s.clock
  wait : ∀ n deadline, s.client.pc = .wait n deadline →
    n = T1 * 2 ^ (s.invites.length - 1) ∧ t₀ + T1 * (2 ^ s.invites.length - 1) ≤ deadline ∧ s.invites.length ≤ 7

theorem doubling_start (t₀ : ℕ) : Doubling t₀ (InviteTsx.start t₀ : InviteTsx R) where
  start := le_refl _
  sched k t h := by
    cases k with
    | zero => exact (Option.some.inj h).le.trans' (by simp)
    | succ k => cases h
  nonempty := Nat.zero_lt_one
  length := by simp [InviteTsx.start]
  timeout _ := rfl
  idle _ _ := Or.inl rfl
  top _ h := by cases h
  wait _ _ h := by cases h

theorem Doubling.still (hp : Doubling t₀ s) (hinv : s'.invites = s.invites) (hclock : s.clock ≤ s'.clock)
    (hpc : s'.client.pc = s.client.pc) (hst : s'.client.state = s.client.state)
    (hto : s'.client.timeout = s.client.timeout) : Doubling t₀ s' := by
  refine ⟨hp.start.trans hclock, hinv ▸ hp.sched, hinv ▸ hp.nonempty, hinv ▸ hp.length, ?_, ?_, ?_, ?_⟩
  · rw [hst, hto]
    exact hp.timeout
  · rw [hpc, hst, hinv]
    exact fun h h' => (hp.idle h h').imp_right hclock.trans'
  · rw [hpc, hinv]
    exact fun n h => (hp.top n h).imp (fun ⟨hn, hle⟩ => ⟨hn, hle.trans hclock⟩) hclock.trans'
  · rw [hpc, hinv]
    exact hp.wait

theorem Doubling.of_view (hp : Doubling t₀ s) (h : s'.view = s.view) : Doubling t₀ s' := by
  simp only [view, Prod.mk.injEq] at h
  obtain ⟨hclock, hclient, hinv, -⟩ := h
  exact hp.still hinv hclock.ge (by rw [hclient]) (by rw [hclient]) (by rw [hclient])

/-- `receive` returns; before the 32 s are over it does not return in the first state. -/
theorem Doubling.ret (hp : Doubling t₀ s) (hinv : s'.invites = s.invites) (hclock : s'.clock = s.clock)
    (hpc : s'.client.pc = .idle)
    (hst : s'.client.state = .init → s'.client.timeout = t₀ + T1 * 64 ∧
      (s.invites.length = 1 ∨ t₀ + T1 * 64 ≤ s.clock)) : Doubling t₀ s' := by
  refine ⟨hclock ▸ hp.start, hinv ▸ hp.sched, hinv ▸ hp.nonempty, hinv ▸ hp.length, fun h => (hst h).1, fun _ h => ?_,
    fun n h => ?_, fun n deadline h => ?_⟩
  · rw [hinv, hclock]
    exact (hst h).2
  all_goals
    rw [hpc] at h
    cases h

theorem Doubling.arm (hp : Doubling t₀ s) {n : ℕ} (hpc : s.client.pc = .top n) (hinit : s.client.state = .init)
    (ht : s.clock < s.client.timeout) : Doubling t₀ (s.setPc (.wait n (s.clock + n))) := by
  have hto := hp.timeout hinit
  refine ⟨hp.start, hp.sched, hp.nonempty, hp.length, hp.timeout, fun h => (by cases h), fun _ h => (by cases h), ?_⟩
  intro m deadline h
  obtain ⟨rfl, rfl⟩ := ReceivePc.wait.inj h
  obtain ⟨k, hk⟩ : ∃ k, s.invites.length = k + 1 := ⟨s.invites.length - 1, by have := hp.nonempty; omega⟩
  change n = T1 * 2 ^ (s.invites.length - 1) ∧ t₀ + T1 * (2 ^ s.invites.length - 1) ≤ s.clock + n ∧
    s.invites.length ≤ 7
  have htop := hp.top n hpc
  rw [hk, Nat.add_sub_cancel] at htop ⊢
  rw [pow_succ]
  have hpos : 0 < 2 ^ k := Nat.two_pow_pos k
  rcases htop with ⟨rfl, hle⟩ | hlate
  · simp only [T1] at *
    have hseven : 2 ^ k < 2 ^ 7 := by omega
    have := (Nat.pow_lt_pow_iff_right (by omega : 1 < 2)).mp hseven
    exact ⟨trivial, by omega, by omega⟩
  · omega

theorem Doubling.resend (hp : Doubling t₀ s) {n deadline : ℕ} (hpc : s.client.pc = .wait n deadline)
    (hd : deadline ≤ s.clock) (up : Wire (TsxRequest R)) :
    Doubling t₀ { s.setPc (.top (n * 2)) with invites := s.invites ++ [s.clock], up } := by
  obtain ⟨hn, hle, hseven⟩ := hp.wait n deadline hpc
  have hlen : (s.invites ++ [s.clock]).length = s.invites.length + 1 := List.length_append
  refine ⟨hp.start, fun k t h => ?_, by rw [hlen]; omega, by rw [hlen]; omega, hp.timeout, fun h => (by cases h),
    fun m h => Or.inl ?_, fun _ _ h => by cases h⟩
  · rcases Nat.lt_trichotomy k s.invites.length with hlt | rfl | hgt
    · exact hp.sched k t (List.getElem?_append_left hlt ▸ h)
    · rw [List.getElem?_concat_length] at h
      exact Option.some.inj h ▸ hle.trans hd
    · rw [List.getElem?_eq_none (by rw [hlen]; omega)] at h
      cases h
  · obtain rfl := ReceivePc.top.inj h
    change _ = T1 * 2 ^ ((s.invites ++ [s.clock]).length - 1) ∧
      t₀ + T1 * (2 ^ ((s.invites ++ [s.clock]).length - 1) - 1) ≤ s.clock
    rw [hlen, Nat.add_sub_cancel]
    refine ⟨?_, hle.trans hd⟩
    rw [hn, mul_assoc, ← pow_succ, Nat.sub_add_cancel hp.nonempty]

theorem doubling_step (hs : Sound kind s) (hp : Doubling t₀ s) (hact : Undisturbed s act) (h : Step kind s act s') :
    Doubling t₀ s' := by
  have hinit : s.client.pc ≠ .idle → s.client.pc ≠ .plain → s.client.state = .init :=
    ReceivePc.init_of_fits hs.fits
  cases h with
  | tick h => exact hp.still rfl h rfl rfl rfl
  | call hpc hk h =>
    refine ⟨hp.start, hp.sched, hp.nonempty, hp.length, hp.timeout, ?_, ?_, ?_⟩
    · rcases h with ⟨-, rfl⟩ | ⟨-, rfl⟩
      all_goals exact fun h => by cases h
    · rcases h with ⟨hst, rfl⟩ | ⟨-, rfl⟩
      · intro n hn
        obtain rfl := ReceivePc.top.inj hn
        refine (hp.idle hpc hst).imp_left fun hone => ?_
        change _ = T1 * 2 ^ (s.invites.length - 1) ∧ t₀ + T1 * (2 ^ (s.invites.length - 1) - 1) ≤ s.clock
        rw [hone]
        exact ⟨rfl, hp.start⟩
      · exact fun n hn => by cases hn
    · rcases h with ⟨-, rfl⟩ | ⟨-, rfl⟩
      all_goals exact fun _ _ h => by cases h
  | tell hpc hin h =>
    refine hp.ret rfl rfl rfl fun hst => ?_
    cases h with
    | provisional => cases hst
    | success => cases hst
    | forwarded hf => exact absurd (hf.2.symm.trans hst) (by simp)
  | fail => exact hp.ret rfl rfl rfl fun hst => by cases hst
  | terminate => exact hp.ret rfl rfl rfl fun hst => by cases hst
  | callEnded hpc h => exact hp.ret rfl rfl rfl fun hst => ⟨hp.timeout hst, hp.idle hpc hst⟩
  | giveUp hpc hf ht => exact hp.ret rfl rfl rfl fun hst => ⟨hp.timeout hst, Or.inr (hp.timeout hst ▸ ht)⟩
  | failIo | resendIo => cases hact
  | abort => cases hact
  | arm hpc ht => exact hp.arm hpc (hinit (by simp [hpc]) (by simp [hpc])) ht
  | resend hpc hd => exact hp.resend hpc hd _
  | toClient => exact hp.of_view (view_toClient _ _)
  | toServer => exact hp.of_view (view_toServer _ _)
  | _ => exact hp.still rfl (le_refl _) rfl rfl rfl

/-- When a failure is due to be sent again, from the time it was sent first. -/
def due : ℕ → ℕ
  | 0 => T1
  | j + 1 => due j + min (T1 * 2 ^ (j + 1)) T2

theorem due_mono {i j : ℕ} (h : i ≤ j) : due i ≤ due j := by
  induction h with
  | refl => exact le_refl _
  | step _ ih => exact ih.trans (Nat.le_add_right _ _)

theorem lt_ten_of_due {j : ℕ} (h : due j ≤ T1 * 64) : j < 10 := by
  by_contra hge
  have hten : T1 * 64 < due 10 := by decide
  have := due_mono (not_lt.mp hge)
  omega

/-- A failure is sent again by its timer at most ten times. -/
structure Sparing (t : ServerInvTsx R) : Prop where
  fresh : t.pc = .unanswered → t.resent = 0
  resent : t.resent ≤ 10
  failing : ∀ r abandon delta retransmit, t.pc = .failing r abandon delta retransmit →
    delta = min (T1 * 2 ^ t.resent) T2 ∧ abandon + due t.resent ≤ retransmit + T1 * 64

theorem Replies.sparing {t t' : ServerInvTsx R} {r : R} (ht : Sparing t) (h : Replies kind s t r act t') :
    Sparing t' := by
  cases h with
  | provisional | retransmit => exact ht
  | success => exact ⟨fun h => (by cases h), ht.resent, fun _ _ _ _ h => by cases h⟩
  | again hpc hin => exact ⟨ht.fresh, ht.resent, ht.failing⟩
  | failure hpc h =>
    have hzero := ht.fresh hpc
    refine ⟨fun h => (by cases h), ht.resent, fun r' abandon delta retransmit h => ?_⟩
    obtain ⟨rfl, rfl, rfl, rfl⟩ := ServerPc.failing.inj h
    simp only [hzero, due, T1, T2]
    omega
  | @timer abandon delta retransmit hpc hdue hleft =>
    obtain ⟨rfl, hle⟩ := ht.failing _ _ _ _ hpc
    have hten : t.resent < 10 := lt_ten_of_due (by omega)
    refine ⟨fun h => (by cases h), hten, fun r' abandon' delta' retransmit' h => ?_⟩
    obtain ⟨rfl, rfl, rfl, rfl⟩ := ServerPc.failing.inj h
    simp only [due, pow_succ]
    generalize 2 ^ t.resent = x at *
    constructor
    all_goals
      simp only [T1, T2] at *
      omega

theorem sparing_toServer (hp : ∀ t, s.server = some t → Sparing t) (p : TsxRequest R) :
    ∀ t, (s.toServer p).server = some t → Sparing t := by
  have hfresh : ∀ pc, pc = .unanswered ∨ pc = .stray → Sparing ({ pc } : ServerInvTsx R) := fun pc hpc =>
    ⟨fun _ => rfl, Nat.zero_le _, fun r a d re h => by
      obtain rfl : pc = .failing r a d re := h
      rcases hpc with h | h <;> cases h⟩
  unfold toServer
  split
  · exact fun t ht => Option.some.inj ht ▸ hfresh _ (Or.inl rfl)
  · exact fun t ht => Option.some.inj ht ▸ hfresh _ (Or.inr rfl)
  · exact hp
  · next t ht _ => exact fun t' ht' => Option.some.inj ht' ▸ ⟨(hp t ht).fresh, (hp t ht).resent, (hp t ht).failing⟩

theorem sparing_step (hp : ∀ t, s.server = some t → Sparing t) (h : Step kind s act s') :
    ∀ t, s'.server = some t → Sparing t := by
  cases h with
  | @toServer i keep p up h => exact sparing_toServer (s := { s with up }) hp p
  | toClient h =>
    unfold toClient
    split
    all_goals exact hp
  | reply ht h => exact fun t' ht' => Option.some.inj ht' ▸ h.sparing (hp _ ht)
  | responded | serverGone => exact fun t' ht' => by cases ht'
  | _ => exact hp

/-- Nothing is doubled on the way, and an INVITE is only declined (`handle_unwanted_request`). -/
def Declining (_ : InviteTsx R) : TsxAct R → Prop
  | .toClient _ keep | .toServer _ keep => keep = false
  | .provisional _ _ | .success _ _ | .retransmit _ => False
  | _ => True

instance (s : InviteTsx R) (a : TsxAct R) : Decidable (Declining s a) :=
  match a with
  | .toClient _ keep | .toServer _ keep => inferInstanceAs (Decidable (keep = false))
  | .provisional _ _ | .success _ _ | .retransmit _ => .isFalse id
  | .tick _ | .call | .poll _ | .abort | .dropClient | .keep _ | .loseDown _ | .loseUp _ | .failure _ _ | .dropServer
  | .serverPoll _ => .isTrue trivial

def spent (s : InviteTsx R) : ℕ :=
  s.up.sent.length + s.down.sent.length + s.up.load TsxRequest.weight + s.down.load (fun _ => 1) + s.inbox.length +
    s.server.elim 0 ServerInvTsx.load

theorem spent_toClient {i : ℕ} {r : R} {down : Wire R} (h : s.down.arrive i false = some (r, down)) :
    ({ s with down }.toClient r).spent ≤ s.spent := by
  have hsent := Wire.sent_arrive h
  have hload := Wire.load_arrive (fun _ => 1) h
  unfold toClient
  split
  all_goals
    simp only [spent, hsent, List.length_append, List.length_singleton]
    omega

theorem spent_toServer {i : ℕ} {p : TsxRequest R} {up : Wire (TsxRequest R)}
    (h : s.up.arrive i false = some (p, up)) : ({ s with up }.toServer p).spent ≤ s.spent := by
  have hsent := Wire.sent_arrive h
  have hload := Wire.load_arrive TsxRequest.weight h
  have hpush : ∀ t : ServerInvTsx R,
      ({ t with inbox := t.inbox ++ [p] } : ServerInvTsx R).load ≤ t.load + p.weight := by
    intro t
    have hecho : p.echo ≤ p.weight := by cases p <;> simp [TsxRequest.echo, TsxRequest.weight]
    unfold ServerInvTsx.load
    cases t.pc with
    | unanswered | failing =>
      simp only [List.map_append, List.map_singleton, List.sum_append, List.sum_singleton]
      omega
    | accepted | stray => exact Nat.zero_le _
  unfold toServer
  split
  · simp only [spent, hsent, Option.elim_some, ServerInvTsx.load, List.map_nil, List.sum_nil]
    simp only [TsxRequest.weight] at hload ⊢
    omega
  · simp only [spent, hsent, Option.elim_some, ServerInvTsx.load]
    omega
  · simp only [spent, hsent]
    omega
  · rename_i t ht _
    have := hpush t
    have hserver : s.server = some t := ht
    simp only [spent, hsent, hserver, Option.elim_some]
    omega

theorem spent_reply {t t' : ServerInvTsx R} {r : R} (ht : s.server = some t) (hsp : Sparing t)
    (hact : Declining s act) (h : Replies kind s t r act t') :
    ({ s with server := some t', down := s.down.send r } : InviteTsx R).spent ≤ s.spent := by
  have hload : t'.load + 2 ≤ t.load := by
    cases h with
    | provisional | success | retransmit => cases hact
    | failure hpc h =>
      simp only [ServerInvTsx.load, hpc, hsp.fresh hpc]
      omega
    | again hpc hin =>
      simp only [ServerInvTsx.load, hpc, hin, List.map_cons, List.sum_cons, TsxRequest.echo]
      omega
    | timer hpc hdue hleft =>
      have := (hsp.failing _ _ _ _ hpc).2
      have hten : t.resent < 10 := lt_ten_of_due (by omega)
      simp only [ServerInvTsx.load, hpc]
      omega
  simp only [spent, ht, Option.elim_some, Wire.sent_send, Wire.load_send, List.length_append, List.length_singleton]
  omega

theorem spent_step (hsp : ∀ t, s.server = some t → Sparing t) (hact : Declining s act) (h : Step kind s act s')
    (hb : s.spent ≤ 23 * s.invites.length) : s'.spent ≤ 23 * s'.invites.length := by
  have hless : s'.invites = s.invites → s'.spent ≤ s.spent → s'.spent ≤ 23 * s'.invites.length := by
    intro hinv hle
    rw [hinv]
    omega
  cases h with
  | @tell r inbox sent client hpc hin h =>
    refine hless rfl ?_
    change ({ s with inbox } : InviteTsx R).spent ≤ _
    simp only [spent, hin, List.length_cons]
    omega
  | @fail r inbox hpc hin h hf =>
    refine hless rfl ?_
    change ({ s with inbox, up := s.up.send (.ack r) } : InviteTsx R).spent ≤ _
    simp only [spent, hin, Wire.sent_send, Wire.load_send, List.length_append, List.length_cons, List.length_nil,
      TsxRequest.weight]
    omega
  | failIo | dropTsx =>
    refine hless rfl ?_
    change ({ s with inbox := [] } : InviteTsx R).spent ≤ _
    simp only [spent, List.length_nil]
    omega
  | resend hpc hd =>
    change ({ s with up := s.up.send .invite } : InviteTsx R).spent ≤ 23 * (s.invites ++ [s.clock]).length
    simp only [spent, Wire.sent_send, Wire.load_send, List.length_append, List.length_singleton, TsxRequest.weight] at *
    omega
  | @ackAgain r x timeout inbox hk hin =>
    refine hless rfl ?_
    simp only [spent, hin, Wire.sent_send, Wire.load_send, List.length_append, List.length_cons, List.length_nil,
      TsxRequest.weight]
    omega
  | ackIo hk hin =>
    refine hless rfl ?_
    simp only [spent, hin, List.length_cons]
    omega
  | @toClient i keep r down h =>
    obtain rfl : keep = false := hact
    exact hless (congrArg (·.2.2.1) (view_toClient _ r)) (spent_toClient h)
  | loseDown i =>
    have := s.down.load_lose_le (fun _ => 1) i
    refine hless rfl ?_
    simp only [spent, Wire.sent_lose]
    omega
  | @toServer i keep p up h =>
    obtain rfl : keep = false := hact
    exact hless (congrArg (·.2.2.1) (view_toServer _ p)) (spent_toServer h)
  | loseUp i =>
    have := s.up.load_lose_le TsxRequest.weight i
    refine hless rfl ?_
    simp only [spent, Wire.sent_lose]
    omega
  | reply ht h => exact hless rfl (spent_reply ht (hsp _ ht) hact h)
  | responded | serverGone =>
    refine hless rfl ?_
    simp only [spent, responded, Option.elim_none]
    omega
  | _ => exact hless rfl (le_refl _)

section Run

variable {ok : InviteTsx R → TsxAct R → Prop} {tr : List (TsxAct R)}

theorem paced_run (h : Run (step kind) ok (InviteTsx.start t₀) tr s) :
    Paced t₀ s ∧ Patient t₀ s ∧ ∀ t, s.server = some t → Sparing t := by
  refine (h.invariant (I := fun s => Sound kind s ∧ Paced t₀ s ∧ Patient t₀ s ∧ ∀ t, s.server = some t → Sparing t)
    ⟨sound_start t₀, paced_start t₀, patient_start t₀, fun _ h => (by cases h)⟩ ?_).2
  rintro s a s' ⟨hs, hpaced, hpatient, hsparing⟩ - hstep
  have hstep := step_cases hstep
  exact ⟨sound_step hs hstep, paced_step hs hpaced hstep, patient_step hs hpatient hstep, sparing_step hsparing hstep⟩

theorem doubling_run (hok : ∀ s a, ok s a → Undisturbed s a) (h : Run (step kind) ok (InviteTsx.start t₀) tr s) :
    Doubling t₀ s := by
  refine (h.invariant (I := fun s => Sound kind s ∧ Doubling t₀ s) ⟨sound_start t₀, doubling_start t₀⟩ ?_).2
  rintro s a s' ⟨hs, hd⟩ ha hstep
  have hstep := step_cases hstep
  exact ⟨sound_step hs hstep, doubling_step hs hd (hok s a ha) hstep⟩

theorem spent_run (hok : ∀ s a, ok s a → Declining s a) (h : Run (step kind) ok (InviteTsx.start t₀) tr s) :
    s.spent ≤ 23 * s.invites.length := by
  refine (h.invariant (I := fun s => (∀ t, s.server = some t → Sparing t) ∧ s.spent ≤ 23 * s.invites.length)
    ⟨fun _ h => (by cases h), le_refl _⟩ ?_).2
  rintro s a s' ⟨hsparing, hspent⟩ ha hstep
  have hstep := step_cases hstep
  exact ⟨sparing_step hsparing hstep, spent_step hsparing (hok s a ha) hstep hspent⟩

end Run

/-- On any network and whatever the two users do: two INVITEs are half a second apart, and there are at most 65; if
`receive` is never disturbed there are at most 8, and the one after `k` others goes out `2 ^ k - 1` half seconds
after the first or later. A failure is sent again by its timer at most ten times. The sender does not give up
before 32 s have passed, nor before 2 minutes have passed since any response it was told. -/
theorem invite_patience {tr : List (TsxAct R)} (h : Run (step kind) Always (InviteTsx.start t₀) tr s) :
    (s.invites.IsChain (fun a b => a + T1 ≤ b) ∧ s.invites.length ≤ 65) ∧
      (Run (step kind) Undisturbed (InviteTsx.start t₀) tr s →
        s.invites.length ≤ 8 ∧ ∀ k t, s.invites[k]? = some t → t₀ + T1 * (2 ^ k - 1) ≤ t) ∧
      (∀ t, s.server = some t → t.resent ≤ 10) ∧
      (∀ t, (t, .timedOut) ∈ s.received → t₀ + T1 * 64 ≤ t) ∧
      s.received.Pairwise fun x y => ∀ r, x.2 = .response r → y.2 = .timedOut → x.1 + T1 * 240 ≤ y.1 := by
  obtain ⟨hpaced, hpatient, hsparing⟩ := paced_run h
  refine ⟨⟨hpaced.apart, hpaced.length⟩, fun hun => ?_, fun t ht => (hsparing t ht).resent, hpatient.gaveUp,
    hpatient.after⟩
  have hd := doubling_run (fun _ _ => id) hun
  exact ⟨hd.length, hd.sched⟩

theorem invite_patience_declined :
    ∃ s, exec (guarded (step statusKind) Undisturbed) (InviteTsx.start 0) declinedOnce = some s ∧
      s.invites = [0, 500] ∧ s.invites.length ≤ 8 := by
  obtain ⟨s, hs, hinv⟩ : ∃ s, exec (guarded (step statusKind) Undisturbed) (InviteTsx.start 0) declinedOnce = some s ∧
    s.invites = [0, 500] := ⟨_, rfl, rfl⟩
  have hrun := run_of_guarded hs
  exact ⟨s, hs, hinv, ((invite_patience hrun.unconditional).2.1 hrun).1⟩

/-- On a network that loses and reorders but doubles nothing, an INVITE that is declined makes for at most 22
packets more, 184 in all if `receive` is never disturbed. -/
theorem declined_spent {tr : List (TsxAct R)} (h : Run (step kind) Declining (InviteTsx.start t₀) tr s) :
    s.up.sent.length + s.down.sent.length ≤ 23 * s.invites.length ∧
      (Run (step kind) Undisturbed (InviteTsx.start t₀) tr s → s.up.sent.length + s.down.sent.length ≤ 184) := by
  have hspent := spent_run (fun _ _ => id) h
  have htotal : s.up.sent.length + s.down.sent.length ≤ s.spent := by
    unfold spent
    omega
  refine ⟨htotal.trans hspent, fun hun => ?_⟩
  have := (doubling_run (fun _ _ => id) hun).length
  omega

theorem declined_spent_once :
    ∃ s, exec (guarded (step statusKind) Declining) (InviteTsx.start 0) declinedOnce = some s ∧
      s.up.sent.length + s.down.sent.length = 4 ∧ s.up.sent.length + s.down.sent.length ≤ 23 * s.invites.length := by
  obtain ⟨s, hs, hfour⟩ : ∃ s, exec (guarded (step statusKind) Declining) (InviteTsx.start 0) declinedOnce = some s ∧
    s.up.sent.length + s.down.sent.length = 4 := ⟨_, rfl, rfl⟩
  exact ⟨s, hs, hfour, (declined_spent (run_of_guarded hs)).1⟩

end InviteTsx

end Kutsu
