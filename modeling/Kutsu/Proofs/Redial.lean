import Kutsu.Proofs.Durable

/-! Busy retries over a whole run. The dispatches of a call are numbered from 1; each but the first
comes after the busy outcome of the one before it, and no sooner than the interval. Any other outcome
leaves the call with the task that got it, to be finalized. -/

namespace Kutsu

open Runs

/-- How a dial ends: the INVITE is refused, or the ring has its outcome. -/
inductive DialEnd where
  | refused (error : String)
  | rang (r : RingOutcome)

def DialEnd.busy : DialEnd → Bool
  | .rang (.terminated (.failed .busy _)) => true
  | _ => false

def Attempt.dialEnd (a : Attempt) (input : RunInput) : Option DialEnd :=
  match a.phase, input with
  | .inviting, .invited (.error e) => some (.refused e)
  | .ringing _, .ring r => some (.rang r)
  | _, _ => none

def Obs.dispatch? (id : CallId) : Obs → Option (ℕ × PendingEntry)
  | .popped now e => if e.callId = id then some (now, e) else none
  | _ => none

def Effect.dispatch? (id : CallId) : Effect → Option (ℕ × PendingEntry)
  | .pop now e _ => if e.callId = id then some (now, e) else none
  | _ => none

/-- When a task is to dial again. -/
def Phase.retryAt : Phase → Option ℕ
  | .requeueState t | .requeueCount t | .requeuePush t => some t
  | _ => none

def Stage.concludes : Stage → Bool
  | .answered | .talking _ | .finalizing _ => true
  | _ => false

theorem Stage.Handed.owns {p q : Stage} (h : Stage.Handed p q) : p.owns = true := by
  cases h <;> rfl

theorem Stage.Handed.not_concludes {p q : Stage} (h : Stage.Handed p q) : p.concludes = false := by
  cases h <;> rfl

theorem Stage.Step.of_concludes {cfg : ServerConfig} {sh : Shared} {tok : Token} {a : Attempt} {input : RunInput}
    {p q : Stage} {eff : Effect} (h : Stage.Step cfg sh tok a input p q eff) (hp : p.concludes = true) :
    q.concludes = true ∨ (∃ e : Ending, eff = .finalize e ∧ e.id = a.id) ∨ eff = .abandon a.id := by
  cases h with
  | answered | talking | hungUp | resolve => exact Or.inl rfl
  | finalize c => exact Or.inr (Or.inl ⟨_, rfl, rfl⟩)
  | panic hi hs =>
    have hown : p.owns = true := by
      cases p with
      | answered | talking | finalizing => rfl
      | _ => cases hp
    exact Or.inr (Or.inr (if_pos hown))
  | _ => cases hp

theorem Shared.dispatch_logs (sh : Shared) (eff : Effect) (id : CallId) :
    (sh.logs eff).filterMap (Obs.dispatch? id) = (eff.dispatch? id).toList := by
  cases eff with
  | pop now e rest =>
    rw [logs, Effect.dispatch?, List.filterMap_cons, Obs.dispatch?]
    split_ifs <;> rfl
  | register i | dropGuard tok i =>
    rw [logs]
    cases sh.cancels.lookup i <;> rfl
  | send tok i =>
    rw [logs]
    split_ifs <;> rfl
  | _ => rfl

theorem Effect.plain_dispatch {eff : Effect} (h : eff.plain = true) (id : CallId) : eff.dispatch? id = none := by
  cases eff with
  | pop => cases h
  | _ => rfl

namespace Attempt

variable {cfg : ServerConfig} {sh : Shared} {tok : Token} {a : Attempt} {input : RunInput} {ph : Phase}
  {eff : Effect}

theorem push_of_next {e : PendingEntry} (h : a.next cfg sh tok input = some (ph, .push e)) :
    ∃ t, a.phase = .requeuePush t ∧ e = a.retryEntry t := by
  obtain ⟨hp, -, t, rfl⟩ := (next_step h).push
  cases hph : a.phase with
  | requeuePush t' =>
    unfold next at h
    rw [hph] at h
    cases input with
    | go =>
      obtain ⟨-, heff⟩ := Prod.mk.inj (Option.some.inj h)
      exact ⟨t', rfl, (Effect.push.inj heff).symm⟩
    | panic =>
      obtain ⟨-, heff⟩ := Prod.mk.inj (Option.some.inj h)
      cases heff
    | _ => cases h
  | _ => rw [hph] at hp; cases hp

theorem retryAt_next {t : ℕ} (h : a.next cfg sh tok input = some (ph, eff)) (ht : ph.retryAt = some t) :
    a.phase.retryAt = some t ∨ (a.retriesBusy cfg input = true ∧
      t = (sh.clock + cfg.retry.busyRetryIntervalMs) % UInt64.size ∧
      ∃ r, a.dialEnd input = some r ∧ r.busy = true) := by
  have hpanic : input ≠ .panic := by
    rintro rfl
    rw [(panic_next h).1] at ht
    cases ht
  have hstep := next_step h
  cases hph : a.phase with
  | ringing warm =>
    unfold next at h
    rw [hph] at h
    cases input with
    | ring r =>
      cases r with
      | answered codec =>
        obtain ⟨rfl, -⟩ := Prod.mk.inj (Option.some.inj h)
        cases ht
      | closed =>
        obtain ⟨rfl, -⟩ := Prod.mk.inj (Option.some.inj h)
        cases ht
      | terminated reason =>
        obtain ⟨rfl, -⟩ := Prod.mk.inj (Option.some.inj h)
        cases reason with
        | failed outcome detail =>
          unfold onTerminated at ht
          dsimp only at ht
          split_ifs at ht with hbusy
          · obtain ⟨rfl, hretry⟩ := hbusy
            refine Or.inr ⟨hretry, (Option.some.inj ht).symm,
              .rang (.terminated (.failed .busy detail)), ?_, rfl⟩
            unfold dialEnd
            rw [hph]
          · cases ht
        | remoteHangup | localHangup =>
          unfold onTerminated at ht
          dsimp only at ht
          rw [if_neg fun h => by cases h.1] at ht
          cases ht
    | panic => exact absurd rfl hpanic
    | _ => cases h
  | requeueState at_ | requeueCount at_ | requeuePush at_ =>
    obtain rfl := go_of_next h (by rw [hph]; rfl) hpanic
    unfold next at h
    rw [hph] at h
    obtain ⟨rfl, -⟩ := Prod.mk.inj (Option.some.inj h)
    first | exact Or.inl ht | cases ht
  | inviting | warming | requeueWake | guardDrop | receiverDrop =>
    unfold next at h
    rw [hph] at h
    cases input with
    | panic => exact absurd rfl hpanic
    | invited r =>
      cases r
      all_goals cases h
      all_goals cases ht
    | warmed | go =>
      cases h
      all_goals cases ht
    | _ => cases h
  | _ =>
    have hq : ph.stage.requeuing = true := by
      cases ph with
      | requeueState | requeueCount | requeuePush => rfl
      | _ => cases ht
    rcases hstep.of_requeuing hq with hp | ⟨hp, -⟩
    all_goals
      rw [hph] at hp
      cases hp

theorem concludes_next {r : DialEnd} (h : a.next cfg sh tok input = some (ph, eff))
    (hr : a.dialEnd input = some r) (hno : ¬ (r.busy = true ∧ shouldRetryBusy a.entry.attempt cfg.retry = true)) :
    ph.stage.concludes = true := by
  unfold dialEnd at hr
  split at hr
  · rename_i hph
    unfold next at h
    rw [hph] at h
    obtain ⟨rfl, -⟩ := Prod.mk.inj (Option.some.inj h)
    rfl
  · rename_i warm r' hph
    obtain rfl := Option.some.inj hr
    unfold next at h
    rw [hph] at h
    cases r' with
    | answered codec | closed =>
      obtain ⟨rfl, -⟩ := Prod.mk.inj (Option.some.inj h)
      rfl
    | terminated reason =>
      obtain ⟨rfl, -⟩ := Prod.mk.inj (Option.some.inj h)
      unfold onTerminated
      cases reason with
      | failed outcome detail =>
        dsimp only
        split_ifs with hbusy
        · obtain ⟨rfl, hretry⟩ := hbusy
          exact absurd ⟨rfl, hretry⟩ hno
        · rfl
      | remoteHangup | localHangup =>
        dsimp only
        rw [if_neg fun h => by cases h.1]
        rfl
  · cases hr

end Attempt

namespace Sys

variable {cfg : ServerConfig} {act : Act} {s s' : Sys} {id : CallId}

/-- The dispatches of a call, each with the dispatcher's reading of the clock. -/
def dispatches (s : Sys) (id : CallId) : List (ℕ × PendingEntry) := s.sh.log.filterMap (Obs.dispatch? id)

theorem dispatches_apply (eff : Effect) (h : s'.sh = s.sh.apply eff) (id : CallId) :
    s'.dispatches id = s.dispatches id ++ (eff.dispatch? id).toList := by
  rw [dispatches, h, Shared.log_apply, List.filterMap_append, Shared.dispatch_logs]
  rfl

theorem dispatches_plain (eff : Effect) (h : s'.sh = s.sh.apply eff) (hno : eff.dispatch? id = none) :
    s'.dispatches id = s.dispatches id := by
  rw [dispatches_apply eff h, hno]
  exact List.append_nil _

/-- Only the dispatcher's pop of the call's own entry dispatches it. -/
inductive Popped (s s' : Sys) (id : CallId) (act : Act) : Prop where
  | no (h : s'.dispatches id = s.dispatches id) (hd : ∀ e now probe, s'.disp = .register e now probe →
      e.callId = id → s.disp = .register e now probe)
  | yes {now : ℕ} {probe : Bool} {e : PendingEntry} (he : e ∈ s.sh.queue.pending) (hid : e.callId = id)
      (hle : e.eligibleAtMs ≤ now) (hd : s'.disp = .register e now probe) (hact : act = .dispatch)
      (hatt : s'.attempts = s.attempts) (h : s'.dispatches id = s.dispatches id ++ [(now, e)])

theorem inHand_look {p q : DispPc} (h : Look cfg s.sh p q) : q.inHand id = false := by
  cases h <;> rfl

theorem Popped.of_effect (eff : Effect) (hsh : s'.sh = s.sh.apply eff) (hno : eff.dispatch? id = none)
    (hd : s'.disp = s.disp ∨ s'.disp.inHand id = false) : Popped s s' id act := by
  refine .no (dispatches_plain eff hsh hno) fun e now probe he hid => ?_
  rcases hd with hd | hd
  · rw [← hd, he]
  · rw [he] at hd
    exact absurd hid (beq_eq_false_iff_ne.mp hd)

theorem Step.popped (h : Step cfg s act s') (id : CallId) : Popped s s' id act := by
  cases h with
  | tick => exact .no rfl fun _ _ _ he _ => he
  | place => exact .of_effect .mint rfl rfl (Or.inl rfl)
  | @placing i p pc eff hp hn => exact .of_effect eff rfl (Effect.plain_dispatch (Placing.plain hn) id) (Or.inl rfl)
  | dispatch h =>
    cases h with
    | @pop now probe e rest hd hq =>
      obtain ⟨hle, hpend⟩ := MemQueue.popEligible_some hq
      by_cases hid : e.callId = id
      · refine .yes (hpend ▸ List.mem_cons_self) hid hle rfl rfl rfl ?_
        rw [dispatches_apply (.pop now e rest) rfl, Effect.dispatch?, if_pos hid]
        rfl
      · refine .no (dispatches_plain (.pop now e rest) rfl (if_neg hid)) fun e' _ _ he hid' => ?_
        obtain ⟨rfl, -⟩ := DispPc.register.inj he
        exact absurd hid' hid
    | look hl => exact .of_effect .idle rfl rfl (Or.inr (inHand_look hl))
    | register => exact .of_effect (.register _) rfl rfl (Or.inr rfl)
    | @claim tok now probe =>
      refine .of_effect .claimSlot rfl rfl (Or.inr ?_)
      cases probe <;> rfl
    | mark => exact .of_effect (.markProbe _ _) rfl rfl (Or.inr rfl)
    | setRinging => exact .of_effect (.store _) rfl rfl (Or.inr rfl)
    | spawn => exact .of_effect .idle rfl rfl (Or.inr rfl)
    | wake => exact .of_effect .consume rfl rfl (Or.inr rfl)
  | timer => exact .of_effect .idle rfl rfl (Or.inr rfl)
  | @run tok input a phase eff ha hn =>
    exact .of_effect eff rfl (Effect.plain_dispatch (Attempt.next_step hn).plain id) (Or.inl rfl)
  | endCall i =>
    rcases s.sh.endCall_cases i with ⟨e, rest, -, h⟩ | ⟨tok, -, -, h⟩ | ⟨-, -, h⟩
    all_goals exact .of_effect _ rfl (by rw [h]; rfl) (Or.inl rfl)
  | @ender i d pc eff hd hn => exact .of_effect eff rfl (Effect.plain_dispatch (Ender.plain hn) id) (Or.inl rfl)

/-- The entry under which a call is in the queue, or was dispatched. -/
inductive Bears (s : Sys) (id : CallId) : Bool → PendingEntry → Prop where
  | pending {e : PendingEntry} (he : e ∈ s.sh.queue.pending) (hid : e.callId = id) : Bears s id false e
  | hand {e : PendingEntry} {now : ℕ} {probe : Bool} (hd : s.disp = .register e now probe)
      (hid : e.callId = id) : Bears s id true e
  | attempt {tok : Token} {a : Attempt} (ha : s.attempts[tok]? = some a) (ho : a.owns id = true) :
      Bears s id true a.entry

theorem Bears.at {b : Bool} {e : PendingEntry} (h : s.Bears id b e) :
    (b = false ∧ s.At id .pending) ∨ (b = true ∧ (s.At id .hand ∨ ∃ st, s.At id (.attempt st))) := by
  cases h with
  | pending he hid => exact Or.inl ⟨rfl, .pending he hid⟩
  | hand hd hid => exact Or.inr ⟨rfl, Or.inl (.hand (by rw [hd]; exact beq_iff_eq.mpr hid))⟩
  | attempt ha ho => exact Or.inr ⟨rfl, Or.inr ⟨_, .attempt ha ho⟩⟩

inductive BearsStep (s s' : Sys) (id : CallId) : Bool → PendingEntry → Prop where
  | kept {b : Bool} {e : PendingEntry} (h : s.Bears id b e) (hd : s'.dispatches id = s.dispatches id) :
      BearsStep s s' id b e
  | popped {now : ℕ} {e : PendingEntry} (h : s.Bears id false e) (hle : e.eligibleAtMs ≤ now)
      (hd : s'.dispatches id = s.dispatches id ++ [(now, e)]) : BearsStep s s' id true e
  | placed {i : ℕ} {p : Placing} (hp : s.placing[i]? = some p) (hpc : p.pc = .push) (hid : p.entry.callId = id)
      (hd : s'.dispatches id = s.dispatches id) : BearsStep s s' id false p.entry
  | retried {tok : Token} {a : Attempt} {t : ℕ} (ha : s.attempts[tok]? = some a) (ho : a.owns id = true)
      (hph : a.phase = .requeuePush t) (hd : s'.dispatches id = s.dispatches id) :
      BearsStep s s' id false (a.retryEntry t)

theorem Step.pending_back (hc : s.Custody) (h : Step cfg s act s') {e : PendingEntry}
    (he : e ∈ s'.sh.queue.pending) : e ∈ s.sh.queue.pending ∨
      (∃ (i : ℕ) (p : Placing), s.placing[i]? = some p ∧ p.pc = .push ∧ e = p.entry) ∨
      ∃ (tok : Token) (a : Attempt) (t : ℕ), s.attempts[tok]? = some a ∧ a.phase = .requeuePush t ∧
        e = a.retryEntry t := by
  have hquiet : ∀ eff : Effect, s'.sh = s.sh.apply eff → eff.plain = true → (∀ e, eff ≠ .push e) →
      e ∈ s.sh.queue.pending := by
    intro eff hsh hplain hno
    rwa [hsh, Shared.queue_apply hplain hno] at he
  have hpush : ∀ eff : Effect, s'.sh = s.sh.apply eff → eff.plain = true →
      (∀ e, eff = .push e → ∀ e' ∈ s.sh.queue.pending, e'.callId ≠ e.callId) →
      e ∈ s.sh.queue.pending ∨ eff = .push e := by
    intro eff hsh hplain hfresh
    by_cases hp : ∃ e', eff = .push e'
    · obtain ⟨e', rfl⟩ := hp
      rw [hsh] at he
      rcases List.mem_cons.mp ((MemQueue.push_perm (hfresh e' rfl)).mem_iff.mp he) with rfl | hold
      · exact Or.inr rfl
      · exact Or.inl hold
    · exact Or.inl (hquiet eff hsh hplain fun e' h => hp ⟨e', h⟩)
  cases h with
  | tick | timer => exact Or.inl he
  | place => exact Or.inl he
  | @placing i p pc eff hp hn hl =>
    rcases hpush eff rfl (Placing.plain hn) (placing_pushes_fresh hc hp hn) with hold | rfl
    · exact Or.inl hold
    · obtain ⟨hpc, rfl⟩ := Placing.push hn
      exact Or.inr (Or.inl ⟨i, p, hp, hpc, rfl⟩)
  | dispatch h =>
    left
    cases h with
    | pop hd hq => exact (MemQueue.popEligible_some hq).2 ▸ List.mem_cons_of_mem _ he
    | register => rwa [(s.sh.rewired_apply rfl).queue] at he
    | _ => exact he
  | @run tok input a phase eff ha hn hl =>
    rcases hpush eff rfl (Attempt.next_step hn).plain
      (attempt_pushes_fresh hc ha (Attempt.next_step hn) rfl) with hold | rfl
    · exact Or.inl hold
    · obtain ⟨t, hph, rfl⟩ := Attempt.push_of_next hn
      exact Or.inr (Or.inr ⟨tok, a, t, ha, hph, rfl⟩)
  | endCall i =>
    left
    rcases s.sh.endCall_cases i with ⟨e', rest, hq, h⟩ | ⟨tok, -, -, h⟩ | ⟨-, -, h⟩
    · rw [h] at he
      exact (MemQueue.remove_some hq).2.mem_iff.mpr (List.mem_cons_of_mem _ he)
    all_goals
      rw [h] at he
      exact he
  | @ender i d pc eff hd hn =>
    exact Or.inl (hquiet eff rfl (Ender.plain hn) fun e' => by rintro rfl; exact Ender.not_push hn)

theorem Moved.owns {tok : Token} {a a' : Attempt} (h : Moved cfg s s' act tok a a') (hsame : a'.Same a)
    (ho : a'.owns id = true) : a.owns id = true := by
  have hid : a'.id = a.id := congrArg PendingEntry.callId hsame.entry
  cases h with
  | still heq => exact heq ▸ ho
  | run hact hstep hn hsh =>
    have hgive := hstep.owns_gives id
    simp only [Attempt.owns, hid] at ho ⊢
    rw [ho] at hgive
    cases hp : a.id == id && a.phase.stage.owns with
    | true => rfl
    | false =>
      rw [hp, Bool.toNat_true, Bool.toNat_false] at hgive
      omega
  | handed hact hh =>
    simp only [Attempt.owns, Bool.and_eq_true, hid] at ho ⊢
    exact ⟨ho.1, hh.owns⟩

theorem bears_step (hs : s.Sound) (h : Step cfg s act s') {b : Bool} {e : PendingEntry} (hb : s'.Bears id b e) :
    BearsStep s s' id b e := by
  have hc' := (sound_step hs h).custody
  cases h.popped id with
  | @yes now probe e' he hid hle hd hact hatt hdis =>
    have hhand : s'.At id .hand := .hand (by rw [hd]; exact beq_iff_eq.mpr hid)
    cases hb with
    | pending he' hid' => cases at_unique hc' (.pending he' hid') hhand
    | hand hd' hid' =>
      obtain ⟨rfl, -⟩ := DispPc.register.inj (hd.symm.trans hd')
      exact .popped (.pending he hid) hle hdis
    | attempt ha ho => cases at_unique hc' (.attempt ha ho) hhand
  | no hdis hdisp =>
    cases hb with
    | pending he hid =>
      rcases h.pending_back hs.custody he with hold | ⟨i, p, hp, hpc, rfl⟩ | ⟨tok, a, t, ha, hph, rfl⟩
      · exact .kept (.pending hold hid) hdis
      · exact .placed hp hpc hid hdis
      · refine .retried ha ?_ hph hdis
        obtain rfl : a.id = id := hid
        simp [Attempt.owns, hph, Phase.stage, Stage.owns]
    | hand hd hid => exact .kept (.hand (hdisp _ _ _ hd hid) hid) hdis
    | attempt ha ho =>
      rcases h.back hs.aligned ha with ⟨a, hold, hsame, hmoved⟩ | hmade
      · rw [hsame.entry]
        exact .kept (.attempt hold (hmoved.owns hsame ho)) hdis
      · obtain ⟨now, hd⟩ := hmade.disp
        exact .kept (.hand hd (beq_iff_eq.mp (Bool.and_elim_left ho))) hdis

/-- A dial of the call ends: of the attempt that the call is at, at the time read. -/
structure DialEnds (id : CallId) (n : ℕ) (r : DialEnd) (t : ℕ) (s : Sys) (act : Act) : Prop where
  input : ∃ tok input a, act = .run tok input ∧ s.attempts[tok]? = some a ∧ a.id = id ∧ a.entry.attempt = n ∧
    a.dialEnd input = some r
  last : (s.dispatches id).length = n
  time : s.sh.clock = t

/-- The `n`th dial of the call has ended busy at `t`. -/
def Busied (cfg : ServerConfig) (clock : ℕ) (id : CallId) (tr : List Act) (n t : ℕ) : Prop :=
  ∃ r : DialEnd, r.busy = true ∧ Once (step cfg) (init cfg clock) (DialEnds id n r t) tr

/-- A busy outcome of the call comes at a time to which the interval can be added. -/
def Fits (cfg : ServerConfig) (id : CallId) (s : Sys) : Act → Prop
  | .run tok input => ∀ a, s.attempts[tok]? = some a → a.id = id → a.retriesBusy cfg input = true →
      s.sh.clock + cfg.retry.busyRetryIntervalMs < UInt64.size
  | _ => True

def PlacedFirst (id : CallId) (s : Sys) : Prop := ∀ p ∈ s.placing, p.entry.callId = id → p.entry.attempt = 1

/-- What has become of a call after `tr`, where `n` dispatches were made. -/
structure Redialled (cfg : ServerConfig) (clock : ℕ) (id : CallId) (tr : List Act) (s : Sys) (n : ℕ) : Prop where
  count : (s.dispatches id).length = n
  numbered : (s.dispatches id).map (fun d => d.2.attempt) = List.range' 1 n
  bounded : n ≤ max 1 cfg.retry.busyMaxAttempts
  spaced : ∀ k d, (s.dispatches id)[k + 1]? = some d →
    ∃ t, Busied cfg clock id tr (k + 1) t ∧ t + cfg.retry.busyRetryIntervalMs ≤ d.1
  unstarted : ∀ v, s.At id v → v.unpushed = true → n = 0
  waiting : ∀ (e : PendingEntry), s.Bears id false e → e.attempt = n + 1 ∧ (n ≠ 0 → n < cfg.retry.busyMaxAttempts ∧
    ∃ t, Busied cfg clock id tr n t ∧ t + cfg.retry.busyRetryIntervalMs ≤ e.eligibleAtMs)
  dialled : ∀ e, s.Bears id true e → e.attempt = n
  retrying : ∀ (tok : Token) (a : Attempt) (at_ : ℕ), s.attempts[tok]? = some a → a.owns id = true →
    a.phase.retryAt = some at_ → n < cfg.retry.busyMaxAttempts ∧
      ∃ t, Busied cfg clock id tr n t ∧ t + cfg.retry.busyRetryIntervalMs ≤ at_

theorem Busied.snoc {clock : ℕ} {tr : List Act} {n t : ℕ} (h : Busied cfg clock id tr n t) (act : Act) :
    Busied cfg clock id (tr ++ [act]) n t := by
  obtain ⟨r, hr, honce⟩ := h
  exact ⟨r, hr, honce.snoc act⟩

variable {clock n : ℕ} {tr : List Act} {ok : Sys → Act → Prop}

theorem redialled_init (clock : ℕ) : Redialled cfg clock id [] (init cfg clock) 0 where
  count := rfl
  numbered := rfl
  bounded := Nat.zero_le _
  spaced _ _ h := by cases h
  unstarted _ _ _ := rfl
  waiting e h := by
    cases h with
    | pending he => cases he
  dialled e h := by
    cases h with
    | hand hd => cases hd
    | attempt ha => cases ha
  retrying _ _ _ h := by cases h

theorem retrying_step (hs : s.Sound) (hr : Redialled cfg clock id tr s n)
    (hrun : Run (step cfg) ok (init cfg clock) tr s) (hfit : Fits cfg id s act) (h : Step cfg s act s')
    {tok : Token} {a' : Attempt} {at_ : ℕ} (ha' : s'.attempts[tok]? = some a') (ho : a'.owns id = true)
    (ht : a'.phase.retryAt = some at_) : n < cfg.retry.busyMaxAttempts ∧
      ∃ t, Busied cfg clock id (tr ++ [act]) n t ∧ t + cfg.retry.busyRetryIntervalMs ≤ at_ := by
  have hold : ∀ a, s.attempts[tok]? = some a → a.owns id = true → a.phase.retryAt = some at_ →
      n < cfg.retry.busyMaxAttempts ∧
        ∃ t, Busied cfg clock id (tr ++ [act]) n t ∧ t + cfg.retry.busyRetryIntervalMs ≤ at_ := by
    intro a ha hown hat
    obtain ⟨hlt, t, hbusy, hle⟩ := hr.retrying tok a at_ ha hown hat
    exact ⟨hlt, t, hbusy.snoc act, hle⟩
  rcases h.back hs.aligned ha' with ⟨a, ha, hsame, hmoved⟩ | hmade
  · have hown := hmoved.owns hsame ho
    cases hmoved with
    | still heq =>
      subst heq
      exact hold a' ha hown ht
    | @run input eff hact hstep hn hsh =>
      rcases Attempt.retryAt_next hn ht with hat | ⟨hbusy, rfl, r, hend, hr'⟩
      · exact hold a ha hown hat
      · subst hact
        have hid : a.id = id := beq_iff_eq.mp (Bool.and_elim_left hown)
        have hatt : a.entry.attempt = n := hr.dialled _ (.attempt ha hown)
        have hlt : n < cfg.retry.busyMaxAttempts := by
          unfold Attempt.retriesBusy at hbusy
          split at hbusy
          · exact hatt ▸ of_decide_eq_true hbusy
          · cases hbusy
        refine ⟨hlt, s.sh.clock, ⟨r, hr', hrun.once ?_⟩, ?_⟩
        · exact ⟨⟨tok, input, a, rfl, ha, hid, hatt, hend⟩, hr.count, rfl⟩
        · rw [Nat.mod_eq_of_lt (hfit a ha hid hbusy)]
    | handed hact hh =>
      rcases hh.target with hst | hst | hst
      all_goals
        generalize a'.phase = ph at hst ht
        cases ph with
        | requeueState | requeueCount | requeuePush => cases hst
        | _ => cases ht
  · rw [hmade.phase] at ht
    cases ht

theorem redialled_step (hs : s.Sound) (hr : Redialled cfg clock id tr s n)
    (hrun : Run (step cfg) ok (init cfg clock) tr s) (hfirst : s.PlacedFirst id) (hfit : Fits cfg id s act)
    (h : Step cfg s act s') : ∃ m, Redialled cfg clock id (tr ++ [act]) s' m := by
  have hs' := sound_step hs h
  cases h.popped id with
  | no hdis hdisp =>
    refine ⟨n, ?_, ?_, hr.bounded, ?_, ?_, ?_, ?_, fun tok a at_ ha ho ht => retrying_step hs hr hrun hfit h ha ho ht⟩
    · rw [hdis, hr.count]
    · rw [hdis, hr.numbered]
    · intro k d hd
      rw [hdis] at hd
      obtain ⟨t, hbusy, hle⟩ := hr.spaced k d hd
      exact ⟨t, hbusy.snoc act, hle⟩
    · intro w hw hun
      obtain ⟨v, hv⟩ := exists_at hs.custody id
      refine hr.unstarted v hv ?_
      rcases (life_step hs.custody hs.aligned h hv hw).unpushed with heq | rfl
      · rw [heq, hun]
      · cases hun
    · intro e he
      cases bears_step hs h he with
      | kept hb =>
        obtain ⟨hatt, hwait⟩ := hr.waiting e hb
        refine ⟨hatt, fun hn => ?_⟩
        obtain ⟨hlt, t, hbusy, hle⟩ := hwait hn
        exact ⟨hlt, t, hbusy.snoc act, hle⟩
      | @placed i p hp hpc hid =>
        have hown : p.owes id = true := by simp [Placing.owes, hpc, hid, PlacePc.unpushed]
        have hzero : n = 0 := hr.unstarted _ (.placing hp hown) (by rw [hpc]; rfl)
        exact ⟨by rw [hfirst p (List.mem_of_getElem? hp) hid, hzero], fun hn => absurd hzero hn⟩
      | @retried tok a t ha ho hph =>
        have hatt : a.entry.attempt = n := hr.dialled _ (.attempt ha ho)
        obtain ⟨hlt, t', hbusy, hle⟩ := hr.retrying tok a t ha ho (by rw [hph]; rfl)
        exact ⟨congrArg (· + 1) hatt, fun _ => ⟨hlt, t', hbusy.snoc act, hle⟩⟩
    · intro e he
      cases bears_step hs h he with
      | kept hb => exact hr.dialled e hb
      | popped hb hle hd =>
        have hlen := congrArg List.length (hdis.symm.trans hd)
        simp at hlen
  | @yes now probe e he hid hle hd hact hatt hdis =>
    have hpend : s.At id .pending := .pending he hid
    have hhand : s'.At id .hand := .hand (by rw [hd]; exact beq_iff_eq.mpr hid)
    obtain ⟨hnum, hwait⟩ := hr.waiting e (.pending he hid)
    refine ⟨n + 1, ?_, ?_, ?_, ?_, ?_, ?_, ?_, ?_⟩
    · rw [hdis, List.length_append, hr.count]
      rfl
    · rw [hdis, List.map_append, hr.numbered, List.range'_1_concat, List.map_cons, List.map_nil, hnum,
        Nat.add_comm n 1]
    · by_cases hn : n = 0
      · exact hn ▸ le_max_left _ _
      · exact le_trans (Nat.succ_le_of_lt (hwait hn).1) (le_max_right _ _)
    · intro k d hk
      rw [hdis] at hk
      rcases Counting.getElem?_concat_cases hk with hold | ⟨hlen, rfl⟩
      · obtain ⟨t, hbusy, hle'⟩ := hr.spaced k d hold
        exact ⟨t, hbusy.snoc act, hle'⟩
      · rw [hr.count] at hlen
        obtain ⟨-, t, hbusy, hle'⟩ := hwait (by omega)
        exact ⟨t, hlen ▸ hbusy.snoc act, hle'.trans hle⟩
    · intro v hv hun
      obtain rfl := at_unique hs'.custody hv hhand
      cases hun
    · intro e' he'
      rcases he'.at with ⟨-, hat⟩ | ⟨hb, -⟩
      · cases at_unique hs'.custody hat hhand
      · cases hb
    · intro e' he'
      cases bears_step hs h he' with
      | kept hb hd' =>
        have hlen := congrArg List.length (hdis.symm.trans hd')
        simp at hlen
      | popped hb => exact (hr.waiting e' hb).1
    · intro tok a at_ ha ho ht
      rw [hatt] at ha
      cases at_unique hs.custody (.attempt ha ho) hpend

/-- The call is with the task that got its outcome, to be finalized, or it was; unless the task panicked. -/
def Concluded (s : Sys) (id : CallId) : Prop :=
  (∃ (tok : Token) (a : Attempt), s.attempts[tok]? = some a ∧ a.id = id ∧ a.phase.stage.concludes = true) ∨
    (∃ d, .finalized id d ∈ s.sh.log) ∨ .abandoned id ∈ s.sh.log

theorem Concluded.not_pending (hc : s.Custody) (h : s.Concluded id) : ¬ s.At id .pending := by
  intro hpend
  rcases h with ⟨tok, a, ha, hid, hst⟩ | ⟨d, hd⟩ | hab
  · have hown : a.owns id = true := by
      subst hid
      rw [Attempt.owns, beq_self_eq_true, Bool.true_and]
      generalize a.phase.stage = p at hst
      cases p with
      | answered | talking | finalizing => rfl
      | _ => cases hst
    cases at_unique hc (.attempt ha hown) hpend
  · cases at_unique hc (.settled hd (beq_self_eq_true id)) hpend
  · cases at_unique hc (.settled hab (beq_self_eq_true id)) hpend

theorem concluded_step (hs : s.Sound) (h : Step cfg s act s') (hc : s.Concluded id) :
    s'.Concluded id ∧ s'.dispatches id = s.dispatches id := by
  refine ⟨?_, ?_⟩
  · have hgrow : ∀ {o}, o ∈ s.sh.log → o ∈ s'.sh.log := fun ho => by
      rw [h.log_eq]
      exact List.mem_append_left _ ho
    rcases hc with ⟨tok, a, ha, hid, hst⟩ | ⟨d, hd⟩ | hab
    · obtain ⟨a', ha', hsame, hmoved⟩ := h.forth hs.aligned ha
      have hid' : a'.id = id := (congrArg PendingEntry.callId hsame.entry).trans hid
      cases hmoved with
      | still heq => exact Or.inl ⟨tok, a', ha', hid', heq ▸ hst⟩
      | @run input eff hact hstep hn hsh =>
        have hlog : ∀ {o}, o ∈ s.sh.logs eff → o ∈ s'.sh.log := fun ho => by
          rw [hsh, Shared.log_apply]
          exact List.mem_append_right _ ho
        rcases hstep.of_concludes hst with hq | ⟨e, rfl, he⟩ | rfl
        · exact Or.inl ⟨tok, a', ha', hid', hq⟩
        · refine Or.inr (Or.inl ⟨e.disposition, hlog ?_⟩)
          rw [← hid, ← he]
          exact List.mem_singleton.mpr rfl
        · refine Or.inr (Or.inr (hlog ?_))
          rw [← hid]
          exact List.mem_singleton.mpr rfl
      | handed hact hh =>
        rw [hh.not_concludes] at hst
        cases hst
    · exact Or.inr (Or.inl ⟨d, hgrow hd⟩)
    · exact Or.inr (Or.inr (hgrow hab))
  · cases h.popped id with
    | no hdis => exact hdis
    | yes he hid => exact absurd (.pending he hid) (hc.not_pending hs.custody)

/-- Every outcome but a busy one with attempts left concludes the call. -/
theorem concluded_of_dialEnd {m t : ℕ} {r : DialEnd} (hend : DialEnds id m r t s act) (h : Step cfg s act s')
    (hno : ¬ (r.busy = true ∧ shouldRetryBusy m cfg.retry = true)) :
    s'.Concluded id ∧ (s'.dispatches id).length = m := by
  obtain ⟨tok, input, a, rfl, ha, hid, rfl, hr⟩ := hend.input
  refine ⟨?_, ?_⟩
  · cases h with
    | @run _ _ b ph eff hb hn hl =>
      obtain rfl := Option.some.inj (ha.symm.trans hb)
      refine Or.inl ⟨tok, { a with phase := ph }, ?_, hid, Attempt.concludes_next hn hr hno⟩
      exact List.getElem?_set_self (List.getElem?_eq_some_iff.mp ha).1
  · cases h.popped id with
    | no hdis => rw [hdis, hend.last]
    | yes he hid hle hd hact => cases hact

/-- Calls are numbered in the order in which they are placed. -/
def Indexed (s : Sys) : Prop := s.placing.map (·.entry.callId) = (List.range s.sh.seq).map callId

theorem Step.entries (h : Step cfg s act s') :
    (∃ e : PendingEntry, e.callId = callId s.sh.seq ∧ s'.sh.seq = s.sh.seq + 1 ∧
      s'.placing.map (·.entry) = s.placing.map (·.entry) ++ [e]) ∨
    (s'.sh.seq = s.sh.seq ∧ s'.placing.map (·.entry) = s.placing.map (·.entry)) := by
  have hplain : ∀ {eff : Effect}, eff.plain = true → (s.sh.apply eff).seq = s.sh.seq := Shared.seq_apply
  cases h with
  | tick | timer => exact Or.inr ⟨rfl, rfl⟩
  | place number scenario eligibleAtMs attempt clientRef =>
    exact Or.inl ⟨⟨callId s.sh.seq, number, scenario, eligibleAtMs, attempt⟩, rfl, rfl, List.map_append⟩
  | @placing i p pc eff hp hn hl =>
    exact Or.inr ⟨hplain (Placing.plain hn), Counting.map_set_of_eq hp rfl⟩
  | dispatch h =>
    right
    cases h with
    | register => exact ⟨(s.sh.rewired_apply rfl).seq, rfl⟩
    | _ => exact ⟨rfl, rfl⟩
  | run ha hn hl => exact Or.inr ⟨hplain (Attempt.next_step hn).plain, rfl⟩
  | endCall i =>
    right
    rcases s.sh.endCall_cases i with ⟨e, rest, -, h⟩ | ⟨tok, -, -, h⟩ | ⟨-, -, h⟩
    all_goals
      rw [h]
      exact ⟨rfl, rfl⟩
  | ender hd hn => exact Or.inr ⟨hplain (Ender.plain hn), rfl⟩

theorem indexed_step (hi : s.Indexed) (h : Step cfg s act s') : s'.Indexed := by
  have hmap : ∀ t : Sys, t.placing.map (·.entry.callId) = (t.placing.map (·.entry)).map (·.callId) := fun t => by
    rw [List.map_map]
    rfl
  rw [Indexed, hmap] at hi ⊢
  rcases h.entries with ⟨e, he, hseq, heq⟩ | ⟨hseq, heq⟩
  · rw [heq, List.map_append, hi, hseq, List.range_succ, List.map_append, List.map_singleton, List.map_singleton, he]
  · rw [heq, hi, hseq]

theorem Indexed.entry_unique (hi : s.Indexed) {p q : Placing} (hp : p ∈ s.placing) (hq : q ∈ s.placing)
    (h : p.entry.callId = q.entry.callId) : p = q := by
  have hnodup : (s.placing.map (·.entry.callId)).Nodup := by
    rw [show s.placing.map (·.entry.callId) = _ from hi]
    exact List.nodup_range.map fun _ _ => callId_injective
  exact List.inj_on_of_nodup_map hnodup hp hq h

theorem PlacedFirst.back (h : Step cfg s act s') (hf : s'.PlacedFirst id) : s.PlacedFirst id := by
  intro p hp hid
  have hmem : p.entry ∈ s'.placing.map (·.entry) := by
    rcases h.entries with ⟨e, -, -, heq⟩ | ⟨-, heq⟩
    · rw [heq]
      exact List.mem_append_left _ (List.mem_map_of_mem hp)
    · rw [heq]
      exact List.mem_map_of_mem hp
  obtain ⟨q, hq, hentry⟩ := List.mem_map.mp hmem
  rw [← hentry] at hid ⊢
  exact hf q hq hid

/-- A call that is placed as a first attempt is dispatched at most as often as is configured, under
the attempts 1, 2, 3 and so on. A dispatch after the first has a busy outcome of the dial before it, and
comes no sooner than the interval after that. Any other outcome, and the last busy one, is the last
of the call's dials, and is left only by finalizing the call. -/
theorem busy_retry_exact {p : Placing} (h : Run (step cfg) (Fits cfg id) (init cfg clock) tr s)
    (hp : p ∈ s.placing) (hid : p.entry.callId = id) (hone : p.entry.attempt = 1) :
    (s.dispatches id).length ≤ max 1 cfg.retry.busyMaxAttempts ∧
    (s.dispatches id).map (fun d => d.2.attempt) = List.range' 1 (s.dispatches id).length ∧
    (∀ k d, (s.dispatches id)[k + 1]? = some d →
      ∃ t, Busied cfg clock id tr (k + 1) t ∧ t + cfg.retry.busyRetryIntervalMs ≤ d.1) ∧
    ∀ m r t, Once (step cfg) (init cfg clock) (DialEnds id m r t) tr →
      (r.busy = true ∧ shouldRetryBusy m cfg.retry = true) ∨
        (s.Concluded id ∧ (s.dispatches id).length = m) := by
  obtain ⟨-, hs, hi, hredial⟩ := h.trace_invariant
    (I := fun tr t => Run (step cfg) (Fits cfg id) (init cfg clock) tr t ∧ t.Sound ∧ t.Indexed ∧
      (t.PlacedFirst id → ∃ n, Redialled cfg clock id tr t n))
    ⟨.nil, sound_init clock, rfl, fun _ => ⟨0, redialled_init clock⟩⟩
    fun tr t act t' ⟨hrun, hs, hi, hr⟩ hfit hstep => by
      have hst := step_cases hstep
      refine ⟨hrun.snoc hfit hstep, sound_step hs hst, indexed_step hi hst, fun hfirst => ?_⟩
      have hfirst := PlacedFirst.back hst hfirst
      obtain ⟨n, hr⟩ := hr hfirst
      exact redialled_step hs hr hrun hfirst hfit hst
  obtain ⟨n, hr⟩ := hredial fun q hq hqid => by
    rw [hi.entry_unique hq hp (hqid.trans hid.symm)]
    exact hone
  refine ⟨?_, ?_, hr.spaced, fun m r t honce => ?_⟩
  · rw [hr.count]
    exact hr.bounded
  · rw [hr.count]
    exact hr.numbered
  · by_cases hbusy : r.busy = true ∧ shouldRetryBusy m cfg.retry = true
    · exact Or.inl hbusy
    · right
      refine honce.settled (J := Sound) (Q := fun t => t.Concluded id ∧ (t.dispatches id).length = m)
        (sound_init clock) ?_ ?_ ?_ h
      · exact fun _ _ _ hs _ hst => sound_step hs (step_cases hst)
      · exact fun _ _ _ _ hend hst => concluded_of_dialEnd hend (step_cases hst) hbusy
      · intro t act t' hs ⟨hc, hlen⟩ hst
        obtain ⟨hc', hdis⟩ := concluded_step hs (step_cases hst) hc
        exact ⟨hc', hdis ▸ hlen⟩

instance (s : Sys) (act : Act) : Decidable (Fits cfg id s act) :=
  match act with
  | .run tok input => inferInstanceAs (Decidable (∀ a ∈ s.attempts[tok]?, a.id = id →
      a.retriesBusy cfg input = true → s.sh.clock + cfg.retry.busyRetryIntervalMs < UInt64.size))
  | .tick _ | .place .. | .placing _ | .dispatch | .timer | .endCall _ | .ender _ => .isTrue trivial

/-- The first dial is busy, and five minutes later nobody answers the second. -/
def busyThenUnanswered : List Act :=
  ringing ++ busyRing ++ .run 0 .go :: .tick 300000 :: List.replicate 9 .dispatch ++
    [.run 1 .go, .run 1 .go, .run 1 (.invited (.ok ())), .run 1 (.warmed (.ok ())),
      .run 1 (.ring (.terminated (.failed .noAnswer "408"))), .run 1 .go]

theorem busy_retry_exact_twice :
    ∃ s, exec (guarded (step noPreflight) (Fits noPreflight (callId 0))) (init noPreflight 0) busyThenUnanswered =
        some s ∧ (s.dispatches (callId 0)).map (fun d => d.2.attempt) = [1, 2] ∧
      ∃ t, Busied noPreflight 0 (callId 0) busyThenUnanswered 1 t ∧ t + 300000 ≤ 300000 := by
  obtain ⟨s, p, d₁, d₂, hs, hp, hid, hone, hd, hnow⟩ : ∃ s p d₁ d₂,
      exec (guarded (step noPreflight) (Fits noPreflight (callId 0))) (init noPreflight 0) busyThenUnanswered =
        some s ∧ s.placing[0]? = some p ∧ p.entry.callId = callId 0 ∧ p.entry.attempt = 1 ∧
      s.dispatches (callId 0) = [d₁, d₂] ∧ d₂.1 = 300000 :=
    ⟨_, _, _, _, rfl, rfl, rfl, rfl, rfl, rfl⟩
  obtain ⟨-, hnum, hspaced, -⟩ := busy_retry_exact (run_of_guarded hs) (List.mem_of_getElem? hp) hid hone
  obtain ⟨t, hbusy, hle⟩ := hspaced 0 d₂ (by rw [hd]; rfl)
  rw [hnow] at hle
  refine ⟨s, hs, ?_, t, hbusy, hle⟩
  rw [hnum, hd]
  rfl

end Sys

end Kutsu
