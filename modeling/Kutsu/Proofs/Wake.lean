import Kutsu.Proofs.Scheduler
import Kutsu.Proofs.Park

/-! No wake-up is lost. From the moment the dispatcher arms its park, one of these holds: a
wake-up is stored or owed, no slot is free, or the timer covers every time at which an
entry could be dispatched. -/

namespace Kutsu

open Runs

/-- An entry is eligible at the time, and the breaker lets it through. -/
def Shared.DispatchableAt (sh : Shared) (time : ℕ) : Prop :=
  (∃ e ∈ sh.queue.pending, e.eligibleAtMs ≤ time) ∧ ∀ u, sh.breaker.decision time ≠ .hold u

/-- The timer goes off no later than any entry can be dispatched from now on. -/
def Shared.Covers (sh : Shared) (timer : Option ℕ) : Prop :=
  ∀ time, sh.clock ≤ time → sh.DispatchableAt time → ∃ t, timer = some t ∧ t ≤ time

/-- A task that has changed what the dispatcher reads and is about to wake it. -/
def Stage.toWake : Stage → Bool
  | .reportWake | .requeueWake | .slotWake => true
  | _ => false

def PlacePc.toWake : PlacePc → Bool
  | .wake => true
  | _ => false

def Attempt.toWake (a : Attempt) : Bool := a.phase.stage.toWake

def Placing.toWake (p : Placing) : Bool := p.pc.toWake

def Act.time : Act → Option ℕ
  | .tick now => some now
  | _ => none

def DispPc.timer : DispPc → Option (Option ℕ)
  | .arm target => some target
  | .parked timer => some timer
  | _ => none

/-- The effects that bring no call nearer to its dispatch. -/
def Effect.calm : Effect → Bool
  | .push _ | .pop _ _ _ | .remove _ _ | .register _ | .claimSlot | .releaseSlot | .consume
  | .markProbe _ _ | .onResult _ => false
  | _ => true

structure Shared.NoNearer (sh sh' : Shared) : Prop where
  clock : sh.clock ≤ sh'.clock
  running : sh.running ≤ sh'.running
  breaker : sh'.breaker = sh.breaker
  pending : sh'.queue.pending ⊆ sh.queue.pending
  permit : sh.permit = true → sh'.permit = true

theorem Breaker.exists_not_hold (b : Breaker) (time : ℕ) :
    ∃ time' ≥ time, ∀ u, b.decision time' ≠ .hold u := by
  refine ⟨max time (max b.openUntilMs b.probeDeadlineMs), le_max_left _ _, fun u h => ?_⟩
  have hlt := lt_of_decision_hold h
  unfold decision at h
  split_ifs at h
  all_goals
    obtain rfl := Decision.hold.inj h
    omega

namespace Shared

theorem Covers.of_noNearer {sh sh' : Shared} {timer : Option ℕ} (hc : sh.Covers timer)
    (h : sh.NoNearer sh') : sh'.Covers timer := by
  rintro time hle ⟨⟨e, he, helig⟩, hdec⟩
  refine hc time (h.clock.trans hle) ⟨⟨e, h.pending he, helig⟩, fun u => ?_⟩
  rw [← h.breaker]
  exact hdec u

theorem Rewired.noNearer {sh sh' : Shared} (h : sh.Rewired sh') : sh.NoNearer sh' :=
  ⟨h.clock.ge, h.running.ge, h.breaker, h.queue ▸ List.Subset.refl _, fun hp => h.permit.trans hp⟩

theorem noNearer_apply (sh : Shared) (eff : Effect) (h : eff.calm = true) :
    sh.NoNearer (sh.apply eff) := by
  cases eff with
  | push | pop | remove | register | claimSlot | releaseSlot | consume | markProbe | onResult =>
    cases h
  | notify => exact ⟨le_rfl, le_rfl, rfl, List.Subset.refl _, fun _ => rfl⟩
  | dropGuard | send => exact (rewired_apply sh rfl).noNearer
  | _ => exact ⟨le_rfl, le_rfl, rfl, List.Subset.refl _, fun h => h⟩

end Shared

/-- A task about to wake the dispatcher does so next; any other step is calm, or is a
change after which the task is about to wake it. -/
theorem Stage.Step.wakes {cfg : ServerConfig} {sh : Shared} {tok : Token} {a : Attempt}
    {input : RunInput} {p q : Stage} {eff : Effect} (h : Stage.Step cfg sh tok a input p q eff) :
    (p.toWake = true ∧ eff = .notify) ∨ (p.toWake = false ∧ (q.toWake = true ∨ eff.calm = true)) := by
  cases h with
  | reportWake | requeueWake | slotWake => exact Or.inl ⟨rfl, rfl⟩
  | report | requeuePush | release => exact Or.inr ⟨rfl, Or.inl rfl⟩
  | talking he => rcases he with rfl | ⟨q, rfl⟩ | ⟨op, rfl, -⟩ <;> exact Or.inr ⟨rfl, Or.inr rfl⟩
  | persist he => rcases he with rfl | ⟨rec, rfl⟩ <;> exact Or.inr ⟨rfl, Or.inr rfl⟩
  | panic hi hs =>
    refine Or.inr ⟨?_, Or.inr (by split_ifs <;> rfl)⟩
    cases p <;> first | rfl | cases hs
  | _ => exact Or.inr ⟨rfl, Or.inr rfl⟩

theorem Placing.wakes {p : Placing} {now : ℕ} {pc : PlacePc} {eff : Effect}
    (h : p.next now = some (pc, eff)) :
    (p.toWake = true ∧ eff = .notify) ∨ (p.toWake = false ∧ (pc.toWake = true ∨ eff.calm = true)) := by
  unfold next at h
  split at h
  all_goals rename_i hpc
  all_goals cases h
  all_goals simp [toWake, hpc, PlacePc.toWake, Effect.calm]

theorem Ender.calm {d : Ender} {sh : Shared} {pc : EndPc} {eff : Effect}
    (h : d.next sh = some (pc, eff)) : eff.calm = true := by
  unfold next at h
  split at h
  all_goals cases h
  all_goals rfl

namespace Sys

variable {cfg : ServerConfig} {act : Act} {s s' : Sys}

/-- Someone is between a change and the wake-up for it. -/
def OwesWake (s : Sys) : Prop :=
  (∃ p ∈ s.placing, p.toWake = true) ∨ ∃ a ∈ s.attempts, a.toWake = true

def Watched (cfg : ServerConfig) (s : Sys) : Prop :=
  ∀ timer, s.disp.timer = some timer → (s.sh.permit = true ∨ s.OwesWake) ∨
    cfg.maxConcurrentChannels ≤ s.sh.running ∨ s.sh.Covers timer

theorem Watched.keep (hw : s.Watched cfg) (hd : s'.disp = s.disp) (h : s.sh.NoNearer s'.sh)
    (howes : s.OwesWake → s'.sh.permit = true ∨ s'.OwesWake) : s'.Watched cfg := by
  intro timer ht
  rw [hd] at ht
  rcases hw timer ht with (hp | ho) | hfull | hcov
  · exact Or.inl (Or.inl (h.permit hp))
  · exact Or.inl (howes ho)
  · exact Or.inr (Or.inl (hfull.trans h.running))
  · exact Or.inr (Or.inr (hcov.of_noNearer h))

theorem watched_of_awake (h : s.disp.timer = none) : s.Watched cfg := by
  intro timer ht
  rw [h] at ht
  cases ht

theorem covers_peek (sh : Shared) (hold : Option ℕ) :
    sh.Covers (sleepUntil sh.queue.peekNextEligibleAt hold) := by
  rintro time - ⟨⟨e, he, helig⟩, -⟩
  cases hpeek : sh.queue.peekNextEligibleAt with
  | none =>
    rw [MemQueue.peek_eq_none.mp hpeek] at he
    cases he
  | some t =>
    have hle := (MemQueue.peek_le hpeek he).trans helig
    cases hold with
    | none => exact ⟨t, rfl, hle⟩
    | some u => exact ⟨min t u, rfl, (min_le_left t u).trans hle⟩

theorem watched_look (hw : s.Watched cfg) {pc : DispPc} (h : Look cfg s.sh s.disp pc) :
    Watched cfg { s with disp := pc } := by
  generalize hd : s.disp = d at h
  cases h with
  | stillFull hfull =>
    rintro timer -
    exact Or.inr (Or.inl hfull)
  | peek =>
    intro timer ht
    obtain rfl := Option.some.inj ht
    exact Or.inr (Or.inr (covers_peek s.sh _))
  | @arm target =>
    intro timer ht
    obtain rfl := Option.some.inj ht
    rcases hw target (by rw [hd]; rfl) with hwake | hfull | hcov
    · exact Or.inl hwake
    · exact Or.inr (Or.inl hfull)
    · refine Or.inr (Or.inr fun time hle hdis => ?_)
      obtain ⟨t, rfl, hle'⟩ := hcov time hle hdis
      exact ⟨max t s.sh.clock, rfl, max_le hle' hle⟩
  | _ => exact watched_of_awake rfl

theorem watched_dispatch (hw : s.Watched cfg) (h : Dispatch cfg s s') : s'.Watched cfg := by
  cases h with
  | look hl => exact watched_look hw hl
  | @claim tok now probe hd => exact watched_of_awake (by cases probe <;> rfl)
  | _ => exact watched_of_awake rfl

/-- Time does not go back. -/
def ClockForward (s : Sys) (act : Act) : Prop := ∀ now ∈ act.time, s.sh.clock ≤ now

instance (s : Sys) (act : Act) : Decidable (ClockForward s act) :=
  inferInstanceAs (Decidable (∀ now ∈ act.time, s.sh.clock ≤ now))

theorem watched_step (hw : s.Watched cfg) (hclock : ClockForward s act) (h : Step cfg s act s') :
    s'.Watched cfg := by
  cases h with
  | tick now =>
    exact hw.keep rfl ⟨hclock now rfl, le_rfl, rfl, List.Subset.refl _, fun h => h⟩ Or.inr
  | place =>
    refine hw.keep rfl (Shared.noNearer_apply _ .mint rfl) fun ho => Or.inr ?_
    exact ho.imp_left fun ⟨p, hp, hwake⟩ => ⟨p, List.mem_append_left _ hp, hwake⟩
  | @placing i p pc eff hp hn hl =>
    have hlt := (List.getElem?_eq_some_iff.mp hp).1
    rcases Placing.wakes hn with ⟨-, rfl⟩ | ⟨hno, hpc | hcalm⟩
    · exact fun _ _ => Or.inl (Or.inl rfl)
    · exact fun _ _ => Or.inl (Or.inr (Or.inl ⟨_, List.mem_set hlt _, hpc⟩))
    · refine hw.keep rfl (Shared.noNearer_apply _ eff hcalm) fun ho => Or.inr ?_
      exact ho.imp_left fun ⟨p', hp', hwake⟩ =>
        ⟨p', Counting.mem_set_of_not hp hno hp' hwake _, hwake⟩
  | dispatch h => exact watched_dispatch hw h
  | timer hd ht => exact watched_of_awake rfl
  | @run tok input a phase eff ha hn hl =>
    have hlt := (List.getElem?_eq_some_iff.mp ha).1
    rcases (Attempt.next_step hn).wakes with ⟨-, rfl⟩ | ⟨hno, hphase | hcalm⟩
    · exact fun _ _ => Or.inl (Or.inl rfl)
    · exact fun _ _ => Or.inl (Or.inr (Or.inr ⟨_, List.mem_set hlt _, hphase⟩))
    · refine hw.keep rfl (Shared.noNearer_apply _ eff hcalm) fun ho => Or.inr ?_
      exact ho.imp_right fun ⟨a', ha', hwake⟩ =>
        ⟨a', Counting.mem_set_of_not ha hno ha' hwake _, hwake⟩
  | endCall i hl =>
    refine hw.keep rfl ?_ Or.inr
    dsimp only
    rcases s.sh.endCall_cases i with ⟨e, rest, hq, h⟩ | ⟨tok, -, -, h⟩ | ⟨-, -, h⟩
    · obtain ⟨-, hperm⟩ := MemQueue.remove_some hq
      rw [h]
      exact ⟨le_rfl, le_rfl, rfl, fun e' he' => hperm.mem_iff.mpr (List.mem_cons_of_mem _ he'),
        fun h => h⟩
    · rw [h]
      exact Shared.noNearer_apply _ _ rfl
    · rw [h]
      exact Shared.noNearer_apply _ _ rfl
  | ender hd hn => exact hw.keep rfl (Shared.noNearer_apply _ _ (Ender.calm hn)) Or.inr

/-- A parked dispatcher that no one is about to wake has no slot free, or nothing queued, or
a timer for the first time at which the head of the queue can be dispatched. -/
theorem no_lost_wakeup {clock : ℕ} {tr : List Act}
    (h : Run (step cfg) ClockForward (init cfg clock) tr s) {timer : Option ℕ}
    (hpark : s.disp = .parked timer) (hpermit : s.sh.permit = false) (howes : ¬ s.OwesWake) :
    cfg.maxConcurrentChannels ≤ s.sh.running ∨ s.sh.queue.pending = [] ∨
      ∃ t, timer = some t ∧ ∀ head time, s.sh.queue.peekNextEligibleAt = some head →
        s.sh.clock ≤ time → head ≤ time → (∀ u, s.sh.breaker.decision time ≠ .hold u) → t ≤ time := by
  have hw : s.Watched cfg := h.invariant (watched_of_awake rfl) fun _ _ _ hw hclock hs =>
    watched_step hw hclock (step_cases hs)
  rcases hw timer (by rw [hpark]; rfl) with (hp | ho) | hfull | hcov
  · rw [hpermit] at hp
    cases hp
  · exact absurd ho howes
  · exact Or.inl hfull
  · refine Or.inr ?_
    cases hpeek : s.sh.queue.peekNextEligibleAt with
    | none => exact Or.inl (MemQueue.peek_eq_none.mp hpeek)
    | some head =>
      obtain ⟨e, he, rfl⟩ := MemQueue.peek_mem hpeek
      -- the breaker's hold ends some time, so there is a time at which the head can go
      obtain ⟨later, hlater, hfree⟩ :=
        s.sh.breaker.exists_not_hold (max s.sh.clock e.eligibleAtMs)
      obtain ⟨t, rfl, -⟩ := hcov later ((le_max_left _ _).trans hlater)
        ⟨⟨e, he, (le_max_right _ _).trans hlater⟩, hfree⟩
      refine Or.inr ⟨t, rfl, fun head time hhead hle helig hdec => ?_⟩
      obtain rfl := Option.some.inj hhead
      obtain ⟨t', ht', hle'⟩ := hcov time hle ⟨⟨e, he, helig⟩, hdec⟩
      obtain rfl := Option.some.inj ht'
      exact hle'

/-- A scheduled call is queued, its wake-up is consumed, and the dispatcher waits for it. -/
theorem no_lost_wakeup_scheduled :
    ∃ s, exec (guarded (step eagerBreaker) ClockForward) (init eagerBreaker 0)
        (placeCall 0 1000 ++ .tick 10 :: List.replicate 17 .dispatch) = some s ∧
      s.disp = .parked (some 1000) ∧
      (eagerBreaker.maxConcurrentChannels ≤ s.sh.running ∨ s.sh.queue.pending = [] ∨
        ∃ t, some 1000 = some t ∧ ∀ head time, s.sh.queue.peekNextEligibleAt = some head →
          s.sh.clock ≤ time → head ≤ time → (∀ u, s.sh.breaker.decision time ≠ .hold u) → t ≤ time) := by
  obtain ⟨s, hs, hpark, hpermit, hplacing, hatt⟩ : ∃ s, exec (guarded (step eagerBreaker) ClockForward)
        (init eagerBreaker 0) (placeCall 0 1000 ++ .tick 10 :: List.replicate 17 .dispatch) = some s ∧
      s.disp = .parked (some 1000) ∧ s.sh.permit = false ∧
      (s.placing.any Placing.toWake) = false ∧ s.attempts = [] := ⟨_, rfl, rfl, rfl, rfl, rfl⟩
  refine ⟨s, hs, hpark, no_lost_wakeup (run_of_guarded hs) hpark hpermit ?_⟩
  rintro (⟨p, hp, hwake⟩ | ⟨a, ha, -⟩)
  · rw [List.any_eq_false] at hplacing
    exact hplacing p hp hwake
  · rw [hatt] at ha
    cases ha

end Sys

end Kutsu
