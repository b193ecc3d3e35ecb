import Kutsu.Proofs.Lifecycle
import Kutsu.Proofs.Queue
import Kutsu.Proofs.Wake

/-! The engine can always come to rest: from wherever its tasks have got to, the calls that are placed can be
brought to their end with nothing placed, cancelled or broken on the way. The measure is the work that is left
when no dial is answered any more; the dispatcher works it off as long as it is woken. -/

namespace Kutsu

open Runs Counting

/-- The steps an attempt is from its end at most, with `n` tries of the preflight and no one answering. An entry
that is put back is worth a dial. -/
def Phase.rank (n : ℕ) : Phase → ℕ
  | .gone => 0
  | .slotWake => 1
  | .release => 2
  | .receiverDrop _ => 3
  | .guardDrop _ => 4
  | .requeueWake | .persist => 5
  | .countAbort => 6
  | .bumping _ _ => 7
  | .finalizing _ _ => 8
  | .geminiFailed _ _ | .resolve _ _ => 9
  | .transcribe _ _ => 10
  | .totals _ _ _ => 11
  | .quality _ _ => 12
  | .joining _ => 13
  | .draining _ _ => 14
  | .live _ => 15
  | .answered _ => 16
  | .ringing _ => 17
  | .warming => 18
  | .inviting => 19
  | .invite => 20
  | .reportWake _ _ => 21
  | .report _ _ => 22
  | .preflight i _ => 23 + 2 * (n + 1 - i)
  | .backoff i _ _ => 24 + 2 * (n - i)
  | .start => 24 + 2 * n
  | .rung => 25 + 2 * n
  | .claimed => 26 + 2 * n
  | .registered => 28 + 2 * n
  | .requeuePush _ => 36 + 2 * n
  | .requeueCount _ => 37 + 2 * n
  | .requeueState _ => 38 + 2 * n

def dialRank (n : ℕ) : ℕ := 30 + 2 * n

def DispPc.rank (n : ℕ) : DispPc → ℕ
  | .register _ _ _ => 29 + 2 * n
  | .mark _ _ => 1
  | _ => 0

def DispPc.toUnlock : DispPc → ℕ
  | .capCheck => 6
  | .readClock => 5
  | .decide _ => 4
  | .pop _ _ => 3
  | .register _ _ _ => 2
  | .claim _ _ _ => 1
  | _ => 0

/-- The steps it is from taking an entry out of the queue, where one can go. -/
def DispPc.toPop : DispPc → ℕ
  | .readRunning _ => 9
  | .peek _ => 8
  | .arm _ => 7
  | .parked _ => 6
  | .lock => 5
  | .capCheck => 4
  | .readClock => 3
  | .decide _ => 2
  | .pop _ _ => 1
  | _ => 0

def DispPc.reading : DispPc → Option ℕ
  | .decide now | .pop now _ => some now
  | _ => none

def PlacePc.rank (n : ℕ) : PlacePc → ℕ
  | .insert => 34 + 2 * n
  | .count => 33 + 2 * n
  | .push => 32 + 2 * n
  | .wake => 1
  | .done => 0

def EndPc.rank : EndPc → ℕ
  | .finalize => 2
  | .bump _ | .send _ => 1
  | .returned _ => 0

/-- What the rest of the world answers when a call is to end: no probe gets through, no one picks up, and a talk
loses its bridge. -/
def Phase.drive : Phase → RunInput
  | .preflight _ _ => .probe (.error "")
  | .backoff _ _ _ => .slept
  | .inviting => .invited (.error "")
  | .warming => .warmed (.error "")
  | .ringing _ => .ring .closed
  | .live _ => .loop (.bridgeDone none)
  | .draining _ _ => .drain false
  | .joining _ => .joined ⟨.error, none, []⟩
  | .quality _ _ => .snapshot {} ⟨0, 0, 0⟩ ⟨false, 0, 0, 0⟩
  | _ => .go

def Phase.due (now : ℕ) : Phase → ℕ
  | .backoff _ untilMs _ => max now untilMs
  | _ => now

theorem Phase.le_due (ph : Phase) (now : ℕ) : now ≤ ph.due now := by
  cases ph with
  | backoff => exact le_max_left _ _
  | _ => exact le_rfl

theorem Phase.drive_ne_panic (ph : Phase) : ph.drive ≠ .panic := by
  cases ph <;> exact fun h => RunInput.noConfusion h

/-- The dispatcher has brought it so far, and it does not run yet. -/
def Stage.handed : Stage → Bool
  | .registered | .claimed | .rung => true
  | _ => false

def Effect.enqueues : Effect → ℕ
  | .push _ => 1
  | _ => 0

section

variable {cfg : ServerConfig} {sh : Shared} {tok : Token} {a : Attempt} {eff : Effect}

def ServerConfig.tries (cfg : ServerConfig) : ℕ := max cfg.netCheck.retryMax 1

theorem Attempt.rank_onProbe {now i : ℕ} (hi : 23 + 2 * (cfg.tries + 1 - i) = n) :
    (onProbe cfg now i (.error "")).rank cfg.tries < n := by
  unfold onProbe
  dsimp only
  split_ifs with hlt
  · change i < cfg.tries at hlt
    simp only [Phase.rank]
    omega
  · simp only [Phase.rank]
    omega

theorem Attempt.exists_drive (cfg : ServerConfig) (sh : Shared) (tok : Token)
    (hhand : a.phase.stage.handed = false) (hgone : a.phase ≠ .gone) :
    ∃ phase eff, a.next cfg { sh with clock := a.phase.due sh.clock } tok a.phase.drive = some (phase, eff) ∧
      phase.rank cfg.tries + eff.enqueues * dialRank cfg.tries < a.phase.rank cfg.tries := by
  obtain ⟨entry, probe, phase⟩ := a
  have hlow : ∀ (ph : Phase) (e : Effect), e.enqueues = 0 → ph.rank cfg.tries < phase.rank cfg.tries →
      ph.rank cfg.tries + e.enqueues * dialRank cfg.tries < phase.rank cfg.tries := fun ph e he h => by
    rw [he]
    omega
  cases phase with
  | registered | claimed | rung => cases hhand
  | gone => exact absurd rfl hgone
  | start =>
    refine ⟨_, _, rfl, hlow _ _ rfl ?_⟩
    split_ifs <;> simp only [Phase.rank] <;> omega
  | preflight i lastErr => exact ⟨_, _, rfl, hlow _ _ rfl (rank_onProbe rfl)⟩
  | backoff i untilMs lastErr =>
    refine ⟨.preflight (i + 1) lastErr, .idle, if_pos (le_max_right _ _), hlow _ _ rfl ?_⟩
    simp only [Phase.rank]
    omega
  | report usable lastErr =>
    by_cases hr : sh.breaker.reports = true
    · exact ⟨.reportWake usable lastErr, .onResult usable, if_pos hr, hlow _ _ rfl (by simp only [Phase.rank]; omega)⟩
    · refine ⟨_, .idle, if_neg hr, hlow _ _ rfl ?_⟩
      cases usable <;> simp [Phase.rank]
  | reportWake usable lastErr =>
    refine ⟨_, _, rfl, hlow _ _ rfl ?_⟩
    cases usable <;> simp [Phase.rank]
  | answered warm =>
    refine ⟨_, _, rfl, hlow _ _ rfl ?_⟩
    cases warm <;> simp [Phase.rank]
  | live v =>
    refine ⟨Phase.teardown v .failed sh.clock, .idle, rfl, hlow _ _ rfl ?_⟩
    unfold Phase.teardown
    split_ifs <;> simp [Phase.rank]
  | bumping d rest =>
    refine ⟨_, _, rfl, hlow _ _ rfl ?_⟩
    cases rest with
    | early => simp [Rest.leave, Phase.rank]
    | late hadAbort =>
      unfold Rest.leave
      dsimp only
      split_ifs <;> simp [Phase.rank]
  | persist =>
    refine ⟨_, _, rfl, hlow _ _ ?_ (by simp [Phase.rank])⟩
    split <;> rfl
  | requeuePush eligibleAtMs =>
    refine ⟨_, _, rfl, ?_⟩
    simp only [Effect.enqueues, Phase.rank, dialRank]
    omega
  | _ => exact ⟨_, _, rfl, hlow _ _ rfl (by simp [Phase.rank])⟩

end

theorem Stage.Step.not_handed {cfg : ServerConfig} {sh : Shared} {tok : Token} {a : Attempt} {input : RunInput}
    {p q : Stage} {eff : Effect} (h : Stage.Step cfg sh tok a input p q eff) : q.handed = false := by
  cases h with
  | start h _ | preflight h => rcases h with rfl | rfl <;> rfl
  | unreported _ h | reportWake h | bump _ h => rcases h with rfl | rfl <;> rfl
  | ringing h => rcases h with rfl | rfl | rfl <;> rfl
  | _ => rfl

theorem Shared.length_pending (sh : Shared) {eff : Effect} (h : eff.plain = true)
    (hnew : ∀ e, eff = .push e → ∀ e' ∈ sh.queue.pending, e'.callId ≠ e.callId) :
    (sh.apply eff).queue.pending.length = sh.queue.pending.length + eff.enqueues := by
  have hperm := (Shared.pending_perm h hnew).length_eq
  cases eff with
  | pop | remove | register => cases h
  | push e =>
    simp only [Effect.pushedEntry, Effect.poppedEntry, Effect.removedEntry, Option.toList_some, Option.toList_none,
      List.append_nil, List.cons_append, List.nil_append, List.length_cons] at hperm
    exact hperm.symm
  | _ =>
    simp only [Effect.pushedEntry, Effect.poppedEntry, Effect.removedEntry, Option.toList_none, List.append_nil,
      List.nil_append] at hperm
    exact hperm.symm

/-- A step from outside: a call is placed or cancelled, or a task panics. -/
def Act.intervenes : Act → Bool
  | .place _ _ _ _ _ | .endCall _ => true
  | act => act.panics

namespace Sys

variable {cfg : ServerConfig} {s s' : Sys} {act : Act}

/-- An attempt that does not run yet is the one in the dispatcher's hand. -/
def Handed (s : Sys) : Prop :=
  ∀ tok a, s.attempts[tok]? = some a → a.phase.stage.handed = true → s.disp.hand = some (tok, a.phase.stage)

theorem Look.hand_eq_none {sh : Shared} {p q : DispPc} (h : Look cfg sh p q) : p.hand = none := by
  cases h <;> rfl

theorem Handed.of_hand_none (hh : s.Handed) (hd : s.disp.hand = none) (hatt : s'.attempts = s.attempts) :
    s'.Handed := by
  intro tok a ha hst
  rw [hatt] at ha
  have hin := hh tok a ha hst
  rw [hd] at hin
  cases hin

theorem Handed.setPhase (hh : s.Handed) {tok : Token} {st : Stage} {ph : Phase} (hd : s.disp.hand = some (tok, st))
    (hal : s.Aligned) (hatt : s'.attempts = s.setPhase tok ph)
    (hd' : ph.stage.handed = true → s'.disp.hand = some (tok, ph.stage)) : s'.Handed := by
  intro i a ha hst
  obtain ⟨b, hb, -⟩ := hal.hand tok st hd
  rw [hatt, setPhase_eq hb] at ha
  by_cases hi : tok = i
  · subst hi
    rw [List.getElem?_set_self (List.getElem?_eq_some_iff.mp hb).1] at ha
    obtain rfl := Option.some.inj ha
    exact hd' hst
  · rw [List.getElem?_set_ne hi] at ha
    have hin := hh i a ha hst
    rw [hd] at hin
    exact absurd (congrArg Prod.fst (Option.some.inj hin)) hi

theorem handed_dispatch (hh : s.Handed) (hal : s.Aligned) (h : Dispatch cfg s s') : s'.Handed := by
  cases h with
  | look h => exact hh.of_hand_none h.hand_eq_none rfl
  | pop hd hq => exact hh.of_hand_none (by rw [hd]; rfl) rfl
  | @register e now probe hd =>
    intro i a ha hst
    rcases getElem?_concat_cases ha with hold | ⟨rfl, rfl⟩
    · have hin := hh i a hold hst
      rw [hd] at hin
      cases hin
    · rfl
  | @claim tok now probe hd =>
    have hhand : s.disp.hand = some (tok, .registered) := by rw [hd]; rfl
    refine hh.setPhase hhand hal rfl fun _ => ?_
    cases probe <;> rfl
  | mark hd =>
    intro i a ha hst
    have hin := hh i a ha hst
    rw [hd] at hin
    exact hin
  | @setRinging tok hd =>
    have hhand : s.disp.hand = some (tok, .claimed) := by rw [hd]; rfl
    exact hh.setPhase hhand hal rfl fun _ => rfl
  | @spawn tok hd =>
    have hhand : s.disp.hand = some (tok, .rung) := by rw [hd]; rfl
    exact hh.setPhase hhand hal rfl fun h => by cases h
  | wake hd hp => exact hh.of_hand_none (by rw [hd]; rfl) rfl

theorem handed_step (hh : s.Handed) (hal : s.Aligned) (h : Step cfg s act s') : s'.Handed := by
  cases h with
  | dispatch h => exact handed_dispatch hh hal h
  | timer hd ht => exact hh.of_hand_none (by rw [hd]; rfl) rfl
  | @run tok input a phase eff ha hn hl =>
    intro i b hb hst
    by_cases hi : tok = i
    · subst hi
      rw [List.getElem?_set_self (List.getElem?_eq_some_iff.mp ha).1] at hb
      obtain rfl := Option.some.inj hb
      rw [(Attempt.next_step hn).not_handed] at hst
      cases hst
    · rw [List.getElem?_set_ne hi] at hb
      exact hh i b hb hst
  | _ => exact hh

def rank (cfg : ServerConfig) (s : Sys) : ℕ :=
  (s.attempts.map fun a => a.phase.rank cfg.tries).sum + (s.placing.map fun p => p.pc.rank cfg.tries).sum +
    (s.enders.map fun d => d.pc.rank).sum + s.sh.queue.pending.length * dialRank cfg.tries + s.disp.rank cfg.tries

def Unaided (s : Sys) (act : Act) : Prop := ClockForward s act ∧ act.intervenes = false

structure Ready (cfg : ServerConfig) (s : Sys) : Prop where
  sound : s.Sound
  slots : s.Slots cfg
  watched : s.Watched cfg
  handed : s.Handed

theorem ready_init (clock : ℕ) : (init cfg clock).Ready cfg :=
  ⟨sound_init clock, slots_init clock, watched_of_awake rfl, fun _ _ h => by cases h⟩

theorem ready_step (hr : s.Ready cfg) (hclock : ClockForward s act) (hs : s.step cfg act = some s') :
    s'.Ready cfg :=
  have h := step_cases hs
  ⟨sound_step hr.sound h, slots_step hr.slots hr.sound.aligned h, watched_step hr.watched hclock h,
    handed_step hr.handed hr.sound.aligned h⟩

theorem ready_of_run {tr : List Act} (hr : s.Ready cfg) (h : Run (step cfg) Unaided s tr s') : s'.Ready cfg :=
  h.invariant hr fun _ _ _ hr hok hs => ready_step hr hok.1 hs

section Rank

variable {i : ℕ} {tok : Token} {a : Attempt} {ph : Phase} {eff : Effect}

theorem rank_run (ha : s.attempts[tok]? = some a)
    (hlen : s'.sh.queue.pending.length = s.sh.queue.pending.length + eff.enqueues)
    (hatt : s'.attempts = s.attempts.set tok { a with phase := ph }) (hpl : s'.placing = s.placing)
    (hen : s'.enders = s.enders) (hd : s'.disp = s.disp)
    (hlt : ph.rank cfg.tries + eff.enqueues * dialRank cfg.tries < a.phase.rank cfg.tries) :
    s'.rank cfg < s.rank cfg := by
  have hsum := sum_map_set (fun a : Attempt => a.phase.rank cfg.tries) (b := { a with phase := ph }) ha
  simp only [rank, hatt, hpl, hen, hd, hlen, Nat.add_mul] at hsum ⊢
  omega

theorem rank_placing {p : Placing} {pc : PlacePc} (hp : s.placing[i]? = some p)
    (hn : p.next s.sh.clock = some (pc, eff)) (hs : s.Sound) :
    rank cfg { s with sh := s.sh.apply eff, placing := s.placing.set i { p with pc } } < s.rank cfg := by
  have hlen := Shared.length_pending s.sh (Placing.plain hn) (placing_pushes_fresh hs.custody hp hn)
  have hsum := sum_map_set (fun p : Placing => p.pc.rank cfg.tries) (b := { p with pc }) hp
  have hlt : pc.rank cfg.tries + eff.enqueues * dialRank cfg.tries < p.pc.rank cfg.tries := by
    unfold Placing.next at hn
    split at hn
    all_goals
      rename_i hpc
      cases hn
    all_goals
      rw [hpc]
      simp only [PlacePc.rank, Effect.enqueues, dialRank]
      omega
  simp only [rank, hlen, Nat.add_mul] at hsum ⊢
  omega

theorem rank_ender {d : Ender} {pc : EndPc} (hd : s.enders[i]? = some d) (hn : d.next s.sh = some (pc, eff)) :
    rank cfg { s with sh := s.sh.apply eff, enders := s.enders.set i { d with pc } } < s.rank cfg := by
  have hlen := Shared.length_pending s.sh (Ender.plain hn) fun e he => by
    rw [he] at hn
    exact absurd hn Ender.not_push
  have hsum := sum_map_set (fun d : Ender => d.pc.rank) (b := { d with pc }) hd
  have hlt : pc.rank < d.pc.rank ∧ eff.enqueues = 0 := by
    unfold Ender.next at hn
    split at hn
    all_goals
      rename_i hpc
      cases hn
    all_goals
      rw [hpc]
      exact ⟨by simp [EndPc.rank], rfl⟩
  simp only [rank, hlen, hlt.2, Nat.add_zero] at hsum ⊢
  omega

theorem rank_setPhase {st : Stage} (hal : s.Aligned) (hhand : s.disp.hand = some (tok, st))
    (hlen : s'.sh.queue.pending.length = s.sh.queue.pending.length) (hatt : s'.attempts = s.setPhase tok ph)
    (hpl : s'.placing = s.placing) (hen : s'.enders = s.enders)
    (hlt : ∀ q : Phase, q.stage = st →
      ph.rank cfg.tries + s'.disp.rank cfg.tries < q.rank cfg.tries + s.disp.rank cfg.tries) :
    s'.rank cfg < s.rank cfg := by
  obtain ⟨a, ha, hst⟩ := hal.hand tok st hhand
  have hsum := sum_map_set (fun a : Attempt => a.phase.rank cfg.tries) (b := { a with phase := ph }) ha
  have := hlt a.phase hst
  rw [setPhase_eq ha] at hatt
  simp only [rank, hatt, hpl, hen, hlen] at hsum ⊢
  omega

theorem Look.rank_eq {sh : Shared} {p q : DispPc} (h : Look cfg sh p q) (n : ℕ) : p.rank n = 0 ∧ q.rank n = 0 := by
  cases h <;> exact ⟨rfl, rfl⟩

theorem rank_pop {now : ℕ} {probe : Bool} {e : PendingEntry} {rest : MemQueue} (hd : s.disp = .pop now probe)
    (hq : s.sh.queue.popEligible now = some (e, rest)) :
    rank cfg { s with disp := .register e now probe, sh := s.sh.apply (.pop now e rest) } < s.rank cfg := by
  have hlen : s.sh.queue.pending.length = rest.pending.length + 1 :=
    congrArg List.length (MemQueue.popEligible_some hq).2
  simp only [rank, hd, hlen, Shared.apply, DispPc.rank, Nat.add_mul, dialRank]
  omega

/-- The dispatcher leaves no more to do than it found, and less where it has an attempt in its hand. -/
theorem rank_dispatch (hal : s.Aligned) (h : Dispatch cfg s s') :
    s'.rank cfg < s.rank cfg ∨ s'.rank cfg = s.rank cfg ∧ s.disp.hand = none := by
  cases h with
  | @look pc h =>
    obtain ⟨hp, hq⟩ := h.rank_eq cfg.tries
    exact Or.inr ⟨by simp only [rank, hp, hq], h.hand_eq_none⟩
  | pop hd hq => exact Or.inl (rank_pop hd hq)
  | @register e now probe hd =>
    have hqueue : (s.sh.apply (.register e.callId)).queue = s.sh.queue := (Shared.rewired_apply s.sh rfl).queue
    refine Or.inl ?_
    simp only [rank, hd, hqueue, List.map_append, List.sum_append, List.map_cons, List.map_nil, List.sum_cons,
      List.sum_nil, DispPc.rank, Phase.rank]
    omega
  | @claim tok now probe hd =>
    have hhand : s.disp.hand = some (tok, .registered) := by rw [hd]; rfl
    refine Or.inl (rank_setPhase hal hhand rfl rfl rfl rfl fun q hq => ?_)
    cases q <;> cases hq
    rw [hd]
    cases probe <;> simp only [DispPc.rank, Phase.rank, Bool.false_eq_true, if_true, if_false] <;> omega
  | mark hd =>
    refine Or.inl ?_
    simp only [rank, hd, DispPc.rank, Shared.apply]
    omega
  | @setRinging tok hd =>
    have hhand : s.disp.hand = some (tok, .claimed) := by rw [hd]; rfl
    refine Or.inl (rank_setPhase hal hhand rfl rfl rfl rfl fun q hq => ?_)
    cases q <;> cases hq
    rw [hd]
    simp [DispPc.rank, Phase.rank]
  | @spawn tok hd =>
    have hhand : s.disp.hand = some (tok, .rung) := by rw [hd]; rfl
    refine Or.inl (rank_setPhase hal hhand rfl rfl rfl rfl fun q hq => ?_)
    cases q <;> cases hq
    rw [hd]
    simp [DispPc.rank, Phase.rank]
  | wake hd hp =>
    refine Or.inr ⟨?_, by rw [hd]; rfl⟩
    simp only [rank, hd, DispPc.rank, Shared.apply]

end Rank

section Drive

variable {i : ℕ} {tok : Token} {a : Attempt}

theorem exists_dispatch_of_locked (cfg : ServerConfig) (hl : s.disp.locked = true) :
    ∃ s', s.dispatch cfg = some s' ∧ s'.disp.toUnlock < s.disp.toUnlock := by
  unfold dispatch
  cases hd : s.disp with
  | capCheck =>
    dsimp only
    split_ifs <;> exact ⟨_, rfl, by simp [DispPc.toUnlock]⟩
  | readClock => exact ⟨_, rfl, by simp [DispPc.toUnlock]⟩
  | decide now =>
    dsimp only
    split <;> exact ⟨_, rfl, by simp [DispPc.toUnlock]⟩
  | pop now probe =>
    dsimp only
    split <;> exact ⟨_, rfl, by simp [DispPc.toUnlock]⟩
  | register e now probe => exact ⟨_, rfl, by simp [DispPc.toUnlock]⟩
  | claim tok now probe =>
    refine ⟨_, rfl, ?_⟩
    cases probe <;> simp [DispPc.toUnlock]
  | _ =>
    rw [hd] at hl
    cases hl

theorem unaided_dispatch : Unaided s .dispatch := ⟨fun _ h => (by cases h), rfl⟩

theorem exists_unlocked (hr : s.Ready cfg) : ∃ tr s', Run (step cfg) Unaided s tr s' ∧
    (s'.Ready cfg ∧ s'.rank cfg ≤ s.rank cfg) ∧ s'.disp.locked = false := by
  refine exists_run_of_descent (I := fun t : Sys => t.Ready cfg ∧ t.rank cfg ≤ s.rank cfg)
    (fun t : Sys => t.disp.toUnlock) (fun t ht hgoal => ?_) ⟨hr, le_rfl⟩
  obtain ⟨t', hstep, hlt⟩ := exists_dispatch_of_locked cfg (Bool.eq_true_of_not_eq_false hgoal)
  have hle : t'.rank cfg ≤ t.rank cfg := by
    rcases rank_dispatch ht.1.sound.aligned (dispatch_cases hstep) with h | ⟨h, -⟩
    · exact h.le
    · exact h.le
  exact ⟨[.dispatch], t', Run.nil.cons unaided_dispatch hstep,
    ⟨ready_step ht.1 unaided_dispatch.1 hstep, hle.trans ht.2⟩, hlt⟩

theorem lockFree_of_unlocked (hl : s.disp.locked = false) (eff : Effect) : s.lockFree eff = true := by
  cases eff with
  | push e =>
    change (!s.disp.locked) = true
    rw [hl]
    rfl
  | _ => rfl

theorem exists_rank_placing (hr : s.Ready cfg) (hl : s.disp.locked = false) {p : Placing} (hp : p ∈ s.placing)
    (hpc : p.pc ≠ .done) : ∃ tr s', Run (step cfg) Unaided s tr s' ∧ s'.rank cfg < s.rank cfg := by
  obtain ⟨i, hi⟩ := List.getElem?_of_mem hp
  obtain ⟨pc, eff, hn⟩ : ∃ pc eff, p.next s.sh.clock = some (pc, eff) := by
    unfold Placing.next
    cases hcase : p.pc with
    | done => exact absurd hcase hpc
    | _ => exact ⟨_, _, rfl⟩
  have hstep : s.step cfg (.placing i) =
      some { s with sh := s.sh.apply eff, placing := s.placing.set i { p with pc } } := by
    simp [step, hi, hn, lockFree_of_unlocked hl]
  exact ⟨[.placing i], _, Run.nil.cons ⟨fun _ h => (by cases h), rfl⟩ hstep, rank_placing hi hn hr.sound⟩

theorem exists_rank_ender {d : Ender} (hd : d ∈ s.enders) (hpc : d.pc.rank ≠ 0) :
    ∃ tr s', Run (step cfg) Unaided s tr s' ∧ s'.rank cfg < s.rank cfg := by
  obtain ⟨i, hi⟩ := List.getElem?_of_mem hd
  obtain ⟨pc, eff, hn⟩ : ∃ pc eff, d.next s.sh = some (pc, eff) := by
    unfold Ender.next
    cases hcase : d.pc with
    | returned b => exact absurd (by rw [hcase]; rfl) hpc
    | _ => exact ⟨_, _, rfl⟩
  have hstep : s.step cfg (.ender i) =
      some { s with sh := s.sh.apply eff, enders := s.enders.set i { d with pc } } := by
    simp [step, hi, hn]
  exact ⟨[.ender i], _, Run.nil.cons ⟨fun _ h => (by cases h), rfl⟩ hstep, rank_ender hi hn⟩

theorem exists_rank_attempt (hr : s.Ready cfg) (hl : s.disp.locked = false) (ha : a ∈ s.attempts)
    (hhand : a.phase.stage.handed = false) (hgone : a.phase ≠ .gone) :
    ∃ tr s', Run (step cfg) Unaided s tr s' ∧ s'.rank cfg < s.rank cfg := by
  obtain ⟨tok, htok⟩ := List.getElem?_of_mem ha
  obtain ⟨ph, eff, hn, hlt⟩ := Attempt.exists_drive cfg s.sh tok hhand hgone
  let t : Sys := { s with sh := { s.sh with clock := a.phase.due s.sh.clock } }
  have htick : s.step cfg (.tick (a.phase.due s.sh.clock)) = some t := rfl
  have hstep : t.step cfg (.run tok a.phase.drive) =
      some { t with sh := t.sh.apply eff, attempts := t.attempts.set tok { a with phase := ph } } := by
    have hfree : t.lockFree eff = true := lockFree_of_unlocked hl eff
    simp [step, t, htok, hn, hfree]
  have hlen := Shared.length_pending t.sh (Attempt.next_step hn).plain
    (attempt_pushes_fresh (s := t) hr.sound.custody htok (Attempt.next_step hn) rfl)
  have hrun : Run (step cfg) Unaided t [.run tok a.phase.drive] _ :=
    Run.nil.cons ⟨fun _ h => (by cases h), by
      have := a.phase.drive_ne_panic
      cases hdr : a.phase.drive <;> first | rfl | exact absurd hdr this⟩ hstep
  have hclock : ClockForward s (.tick (a.phase.due s.sh.clock)) := fun now h => by
    obtain rfl := Option.some.inj h
    exact a.phase.le_due _
  refine ⟨_, _, hrun.cons ⟨hclock, rfl⟩ htick, ?_⟩
  exact rank_run (s := s) htok hlen rfl rfl rfl rfl hlt

end Drive

section Pop

/-- All that was placed or dialled has come to its end, and an entry can go. -/
structure Waiting (s : Sys) : Prop where
  ended : ∀ a ∈ s.attempts, a.phase = .gone
  placed : ∀ p ∈ s.placing, p.pc = .done
  can : s.sh.DispatchableAt s.sh.clock
  away : s.disp.toPop ≠ 0
  reading : ∀ now ∈ s.disp.reading, now = s.sh.clock

theorem running_of_ended (hs : s.Slots cfg) (h : ∀ a ∈ s.attempts, a.phase = .gone) : s.sh.running = 0 := by
  rw [hs.held, List.countP_eq_zero]
  intro a ha
  simp [Attempt.holdsSlot, h a ha, Phase.stage, Stage.holdsSlot]

theorem Waiting.not_owesWake (w : s.Waiting) : ¬ s.OwesWake := by
  rintro (⟨p, hp, hwake⟩ | ⟨a, ha, hwake⟩)
  · simp [Placing.toWake, w.placed p hp, PlacePc.toWake] at hwake
  · simp [Attempt.toWake, w.ended a ha, Phase.stage, Stage.toWake] at hwake

theorem Waiting.look (w : s.Waiting) {pc : DispPc} (haway : pc.toPop ≠ 0)
    (hread : ∀ now ∈ pc.reading, now = s.sh.clock) : Waiting { s with disp := pc } :=
  ⟨w.ended, w.placed, w.can, haway, hread⟩

/-- The dispatcher comes nearer to the entry, or has it: a free slot lets it look, and its timer has run down
where it is parked. -/
theorem Waiting.exists_step (hcap : 0 < cfg.maxConcurrentChannels) (hr : s.Ready cfg) (w : s.Waiting) :
    ∃ act s', Unaided s act ∧ s.step cfg act = some s' ∧ s'.disp.toPop < s.disp.toPop ∧
      (s'.rank cfg < s.rank cfg ∨ s'.Waiting ∧ s'.rank cfg = s.rank cfg) := by
  have hroom : s.sh.running < cfg.maxConcurrentChannels := by
    rw [running_of_ended hr.slots w.ended]
    exact hcap
  have hlook : ∀ p pc, s.disp = p → s.dispatch cfg = some { s with disp := pc } → Look cfg s.sh p pc →
      pc.toPop ≠ 0 ∧ pc.toPop < p.toPop → (∀ now ∈ pc.reading, now = s.sh.clock) →
      ∃ act s', Unaided s act ∧ s.step cfg act = some s' ∧ s'.disp.toPop < s.disp.toPop ∧
        (s'.rank cfg < s.rank cfg ∨ s'.Waiting ∧ s'.rank cfg = s.rank cfg) := by
    rintro p pc rfl hstep hl ⟨haway, hlt⟩ hread
    obtain ⟨h0, h0'⟩ := hl.rank_eq cfg.tries
    exact ⟨.dispatch, _, unaided_dispatch, hstep, hlt,
      Or.inr ⟨w.look haway hread, by simp only [rank, h0, h0']⟩⟩
  have hquiet : ∀ now ∈ (none : Option ℕ), now = s.sh.clock := fun _ h => by cases h
  have hclock : ∀ now ∈ some s.sh.clock, now = s.sh.clock := fun _ h => (Option.some.inj h).symm
  obtain ⟨p, hd⟩ : ∃ p, s.disp = p := ⟨_, rfl⟩
  cases p with
  | lock => exact hlook _ .capCheck hd (by simp [dispatch, hd]) .lock (by decide) hquiet
  | capCheck =>
    have hno : ¬ cfg.maxConcurrentChannels ≤ s.sh.running := Nat.not_le.mpr hroom
    exact hlook _ .readClock hd (by simp [dispatch, hd, hno]) (.room hroom) (by decide) hquiet
  | readClock =>
    exact hlook _ (.decide s.sh.clock) hd (by simp [dispatch, hd]) .readClock (by simp [DispPc.toPop]) hclock
  | decide now =>
    obtain rfl := w.reading now (by rw [hd]; rfl)
    cases hdec : s.sh.breaker.decision s.sh.clock with
    | dispatch =>
      exact hlook _ (.pop s.sh.clock false) hd (by simp [dispatch, hd, hdec]) (.dispatch hdec)
        (by simp [DispPc.toPop]) hclock
    | probe =>
      exact hlook _ (.pop s.sh.clock true) hd (by simp [dispatch, hd, hdec]) (.probe hdec)
        (by simp [DispPc.toPop]) hclock
    | hold u => exact absurd hdec (w.can.2 u)
  | pop now probe =>
    obtain rfl := w.reading now (by rw [hd]; rfl)
    cases hq : s.sh.queue.popEligible s.sh.clock with
    | none =>
      obtain ⟨e, he, hle⟩ := w.can.1
      exact absurd hle (Nat.not_le.mpr (MemQueue.popEligible_none_iff.mp hq e he))
    | some r =>
      exact ⟨.dispatch, _, unaided_dispatch, by simp [step, dispatch, hd, hq],
        by rw [hd]; simp only [DispPc.toPop]; decide, Or.inl (rank_pop hd hq)⟩
  | readRunning hold =>
    exact hlook _ (.peek hold) hd (by simp [dispatch, hd, hroom]) (.stillRoom hroom) (by simp [DispPc.toPop]) hquiet
  | peek hold => exact hlook _ (.arm _) hd (by simp [dispatch, hd]) .peek (by simp [DispPc.toPop]) hquiet
  | arm target => exact hlook _ (.parked _) hd (by simp [dispatch, hd]) .arm (by simp [DispPc.toPop]) hquiet
  | parked timer =>
    have hup : ∀ permit, Waiting { s with disp := .lock, sh := { s.sh with permit } } ∧
        rank cfg { s with disp := .lock, sh := { s.sh with permit } } = s.rank cfg := fun permit =>
      ⟨⟨w.ended, w.placed, w.can, Nat.succ_ne_zero 4, fun _ h => by cases h⟩, by simp [rank, hd, DispPc.rank]⟩
    have hlt : DispPc.lock.toPop < s.disp.toPop := by
      rw [hd]
      simp [DispPc.toPop]
    by_cases hp : s.sh.permit = true
    · exact ⟨.dispatch, { s with disp := .lock, sh := s.sh.apply .consume }, unaided_dispatch,
        by simp [step, dispatch, hd, hp], hlt, Or.inr (hup false)⟩
    · rcases hr.watched timer (by rw [hd]; rfl) with (hp' | howes) | hfull | hcov
      · exact absurd hp' hp
      · exact absurd howes w.not_owesWake
      · exact absurd hfull (Nat.not_le.mpr hroom)
      · obtain ⟨t, rfl, hle⟩ := hcov _ le_rfl w.can
        exact ⟨.timer, { s with disp := .lock }, ⟨fun _ h => (by cases h), rfl⟩, by simp [step, hd, hle], hlt,
          Or.inr (hup s.sh.permit)⟩
  | _ => exact absurd (by rw [hd]; rfl) w.away

theorem Waiting.exists_rank (hcap : 0 < cfg.maxConcurrentChannels) (hr : s.Ready cfg) (w : s.Waiting) :
    ∃ tr s', Run (step cfg) Unaided s tr s' ∧ s'.rank cfg < s.rank cfg := by
  refine exists_run_of_progress
    (I := fun t : Sys => t.Ready cfg ∧ (t.rank cfg < s.rank cfg ∨ t.Waiting ∧ t.rank cfg = s.rank cfg))
    (fun t : Sys => t.disp.toPop) (fun t ht hgoal => ?_) ⟨hr, Or.inr ⟨w, rfl⟩⟩
  obtain ⟨hrt, hlow | ⟨wt, heq⟩⟩ := ht
  · exact absurd hlow hgoal
  · obtain ⟨act, t', hok, hstep, hlt, hnext⟩ := wt.exists_step hcap hrt
    rw [heq] at hnext
    exact ⟨act, t', hok, hstep, ⟨ready_step hrt hok.1 hstep, hnext⟩, hlt⟩

end Pop

/-- No call is queued, dialled or talked to, no one waits for an answer, and every slot is free. -/
structure AtRest (s : Sys) : Prop where
  queued : s.sh.queue.pending = []
  hand : ∀ id, s.disp.inHand id = false
  ended : ∀ a ∈ s.attempts, a.phase = .gone
  placed : ∀ p ∈ s.placing, p.pc = .done
  answered : ∀ d ∈ s.enders, ∃ accepted, d.pc = .returned accepted
  free : s.sh.running = 0

theorem exists_dispatch_of_hand (cfg : ServerConfig) (h : s.disp.hand ≠ none) : ∃ s', s.dispatch cfg = some s' := by
  unfold dispatch
  cases hd : s.disp with
  | claim | mark | setRinging | spawn => exact ⟨_, rfl⟩
  | _ =>
    rw [hd] at h
    exact absurd rfl h

theorem away_of_unlocked (cfg : ServerConfig) (hl : s.disp.locked = false) (hhand : s.disp.hand = none) :
    s.disp.toPop ≠ 0 ∧ s.disp.reading = none ∧ s.disp.rank cfg.tries = 0 ∧ ∀ id, s.disp.inHand id = false := by
  cases hd : s.disp with
  | lock | readRunning | peek | arm | parked => exact ⟨by simp [DispPc.toPop], rfl, rfl, fun _ => rfl⟩
  | capCheck | readClock | decide | pop | register | claim =>
    rw [hd] at hl
    cases hl
  | mark | setRinging | spawn =>
    rw [hd] at hhand
    cases hhand

theorem exists_rank_queue (hcap : 0 < cfg.maxConcurrentChannels) (hr : s.Ready cfg) (hl : s.disp.locked = false)
    (hhand : s.disp.hand = none) (hended : ∀ a ∈ s.attempts, a.phase = .gone) (hplaced : ∀ p ∈ s.placing, p.pc = .done)
    {e : PendingEntry} (he : e ∈ s.sh.queue.pending) :
    ∃ tr s', Run (step cfg) Unaided s tr s' ∧ s'.rank cfg < s.rank cfg := by
  obtain ⟨time, hle, hfree⟩ := s.sh.breaker.exists_not_hold (max s.sh.clock e.eligibleAtMs)
  obtain ⟨haway, hread, -⟩ := away_of_unlocked cfg hl hhand
  have htick : s.step cfg (.tick time) = some { s with sh := { s.sh with clock := time } } := rfl
  have hok : Unaided s (.tick time) := by
    refine ⟨fun now h => ?_, rfl⟩
    obtain rfl := Option.some.inj h
    exact (le_max_left _ _).trans hle
  have w : Waiting { s with sh := { s.sh with clock := time } } :=
    ⟨hended, hplaced, ⟨⟨e, he, (le_max_right _ _).trans hle⟩, hfree⟩, haway, fun now h => by
      change now ∈ s.disp.reading at h
      rw [hread] at h
      cases h⟩
  obtain ⟨tr, s', hrun, hlt⟩ := w.exists_rank hcap (ready_step hr hok.1 htick)
  exact ⟨_, s', hrun.cons hok htick, hlt⟩

theorem atRest_of_rank_eq_zero (hr : s.Ready cfg) (h : s.rank cfg = 0) : s.AtRest := by
  simp only [rank, Nat.add_eq_zero_iff, Nat.mul_eq_zero, List.sum_eq_zero_iff_forall_eq_nat, List.mem_map,
    forall_exists_index, and_imp, forall_apply_eq_imp_iff₂] at h
  obtain ⟨⟨⟨⟨hatt, hpl⟩, hen⟩, hq⟩, hd⟩ := h
  have hended : ∀ a ∈ s.attempts, a.phase = .gone := fun a ha => by
    have h0 := hatt a ha
    cases hph : a.phase with
    | gone => rfl
    | _ => simp [hph, Phase.rank] at h0
  refine ⟨?_, fun id => ?_, hended, fun p hp => ?_, fun d hd => ?_, running_of_ended hr.slots hended⟩
  · rcases hq with hq | hq
    · exact List.length_eq_zero_iff.mp hq
    · simp [dialRank] at hq
  · cases hdisp : s.disp with
    | register => simp [hdisp, DispPc.rank] at hd
    | _ => rfl
  · have h0 := hpl p hp
    cases hpc : p.pc with
    | done => rfl
    | _ => simp [hpc, PlacePc.rank] at h0
  · have h0 := hen d hd
    cases hpc : d.pc with
    | returned accepted => exact ⟨accepted, rfl⟩
    | _ => simp [hpc, EndPc.rank] at h0

/-- Where there is work left, some of it can be done. -/
theorem exists_rank (hcap : 0 < cfg.maxConcurrentChannels) (hr : s.Ready cfg) (hpos : s.rank cfg ≠ 0) :
    ∃ tr s', Run (step cfg) Unaided s tr s' ∧ s'.rank cfg < s.rank cfg := by
  obtain ⟨tr, t, hrun, ⟨hrt, hle⟩, hl⟩ := exists_unlocked hr
  rcases hle.lt_or_eq with hlt | heq
  · exact ⟨tr, t, hrun, hlt⟩
  · rw [← heq] at hpos ⊢
    suffices h : ∃ tr' s', Run (step cfg) Unaided t tr' s' ∧ s'.rank cfg < t.rank cfg by
      obtain ⟨tr', s', hrun', hlt⟩ := h
      exact ⟨tr ++ tr', s', hrun.append hrun', hlt⟩
    by_cases hhand : t.disp.hand = none
    · by_cases hplaced : ∀ p ∈ t.placing, p.pc = .done
      · by_cases henders : ∀ d ∈ t.enders, d.pc.rank = 0
        · by_cases hended : ∀ a ∈ t.attempts, a.phase = .gone
          · -- nothing is left but what is queued
            obtain ⟨-, -, hdisp, -⟩ := away_of_unlocked cfg hl hhand
            cases hq : t.sh.queue.pending with
            | nil =>
              refine absurd ?_ hpos
              simp only [rank, Nat.add_eq_zero_iff, Nat.mul_eq_zero, List.sum_eq_zero_iff_forall_eq_nat,
                List.mem_map, forall_exists_index, and_imp, forall_apply_eq_imp_iff₂]
              exact ⟨⟨⟨⟨fun a ha => by rw [hended a ha]; rfl, fun p hp => by rw [hplaced p hp]; rfl⟩, henders⟩,
                Or.inl (by rw [hq]; rfl)⟩, hdisp⟩
            | cons e es =>
              have he : e ∈ t.sh.queue.pending := by
                rw [hq]
                exact List.mem_cons_self
              exact exists_rank_queue hcap hrt hl hhand hended hplaced he
          · push Not at hended
            obtain ⟨a, ha, hgone⟩ := hended
            refine exists_rank_attempt hrt hl ha (Bool.eq_false_iff.mpr fun hst => ?_) hgone
            obtain ⟨tok, htok⟩ := List.getElem?_of_mem ha
            rw [hrt.handed tok a htok hst] at hhand
            cases hhand
        · push Not at henders
          obtain ⟨d, hd, hpc⟩ := henders
          exact exists_rank_ender hd hpc
      · push Not at hplaced
        obtain ⟨p, hp, hpc⟩ := hplaced
        exact exists_rank_placing hrt hl hp hpc
    · obtain ⟨t', hstep⟩ := exists_dispatch_of_hand cfg hhand
      rcases rank_dispatch hrt.sound.aligned (dispatch_cases hstep) with hlt | ⟨-, hnone⟩
      · exact ⟨[.dispatch], t', Run.nil.cons unaided_dispatch hstep, hlt⟩
      · exact absurd hnone hhand

/-- At rest every record is ended: no one is left to end it. -/
theorem AtRest.ended_of_orderly (h : s.AtRest) (ho : s.Orderly) {id : CallId} {r : CallRecord}
    (hr : s.sh.store.get id = some r) : r.state = .ended := by
  obtain ⟨v, hv⟩ := exists_at ho.custody id
  have hfit := ho.fits id v hv
  rw [hr] at hfit
  cases hv with
  | unminted => cases hfit
  | @placing i p hp howes =>
    simp [Placing.owes, h.placed p (List.mem_of_getElem? hp), PlacePc.unpushed] at howes
  | @pending e he _ =>
    rw [h.queued] at he
    cases he
  | hand hin =>
    rw [h.hand id] at hin
    cases hin
  | @attempt tok a ha howns =>
    simp [Attempt.owns, h.ended a (List.mem_of_getElem? ha), Phase.stage, Stage.owns] at howns
  | @ender i d hd howns =>
    obtain ⟨accepted, hpc⟩ := h.answered d (List.mem_of_getElem? hd)
    simp [Ender.owns, hpc, EndPc.finalizes] at howns
  | settled => exact hfit _ rfl

/-- Wherever the engine has got to, and whatever its callers, its tasks and the trunk have done, it can still come
to rest without help: some run in which nothing is placed or cancelled any more, and no task panics, serves the
whole queue, frees every slot and answers everyone. Unless a task has panicked, every record is ended then, with
its disposition. -/
theorem comes_to_rest {clock : ℕ} {tr : List Act} (hcap : 0 < cfg.maxConcurrentChannels)
    (h : Run (step cfg) ClockForward (init cfg clock) tr s) :
    ∃ tr' s', Run (step cfg) Unaided s tr' s' ∧ s'.AtRest ∧ ((∀ act ∈ tr, ¬ act.panics) →
      ∀ id r, s'.sh.store.get id = some r → r.state = .ended ∧ r.disposition.isSome = true) := by
  have hready : s.Ready cfg := h.invariant (ready_init clock) fun _ _ _ hr hok hs => ready_step hr hok hs
  have hdone : ∃ tr' s', Run (step cfg) Unaided s tr' s' ∧ s'.Ready cfg ∧ s'.rank cfg = 0 := by
    refine exists_run_of_descent (rank cfg) (fun t hr hpos => ?_) hready
    obtain ⟨tr', t', hrun, hlt⟩ := exists_rank hcap hr hpos
    exact ⟨tr', t', hrun, ready_of_run hr hrun, hlt⟩
  obtain ⟨tr', s', hrun, hr', hzero⟩ := hdone
  have hrest := atRest_of_rank_eq_zero hr' hzero
  refine ⟨tr', s', hrun, hrest, fun hcalm id r hr => ?_⟩
  have hcalm' : Run (step cfg) Calm s tr' s' := hrun.weaken fun _ act hok => by
    have := hok.2
    cases act <;> simp_all [Calm, Act.intervenes, Act.panics]
  have ho := orderly_run ((h.restrict fun _ act hact => hcalm act hact).append hcalm')
  have hend := hrest.ended_of_orderly ho hr
  exact ⟨hend, (ho.marked id r hr).mpr hend⟩

/-- A call is queued for later. -/
theorem comes_to_rest_scheduled : ∃ s tr s', exec (guarded (step eagerBreaker) ClockForward) (init eagerBreaker 0)
      (placeCall 0 1000) = some s ∧ s.sh.queue.len = 1 ∧ Run (step eagerBreaker) Unaided s tr s' ∧ s'.AtRest := by
  have hexec : ∃ s, exec (guarded (step eagerBreaker) ClockForward) (init eagerBreaker 0) (placeCall 0 1000) = some s ∧
      s.sh.queue.len = 1 := ⟨_, rfl, rfl⟩
  obtain ⟨s, hs, hlen⟩ := hexec
  obtain ⟨tr, s', hrun, hrest, -⟩ := comes_to_rest (by decide) (run_of_guarded hs)
  exact ⟨s, tr, s', hs, hlen, hrun, hrest⟩

end Sys

end Kutsu
