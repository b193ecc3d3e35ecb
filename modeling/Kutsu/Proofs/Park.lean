import Kutsu.Proofs.Lifecycle

/-! How the dispatcher parks when a drain pass has found nothing to dispatch. -/

namespace Kutsu

open Runs

inductive PassEnd where
  | full
  | noneEligible (now : ℕ)
  | held (now untilMs : ℕ)

namespace PassEnd

def now : PassEnd → Option ℕ
  | .full => none
  | .noneEligible now => some now
  | .held now _ => some now

def hold : PassEnd → Option ℕ
  | .held _ untilMs => some untilMs
  | _ => none

def Finds (cfg : ServerConfig) (sh : Shared) : PassEnd → Prop
  | .full => cfg.maxConcurrentChannels ≤ sh.running
  | .noneEligible now => sh.running < cfg.maxConcurrentChannels ∧
      (∀ t, sh.breaker.decision now ≠ .hold t) ∧ sh.queue.popEligible now = none
  | .held now untilMs => sh.running < cfg.maxConcurrentChannels ∧
      sh.breaker.decision now = .hold untilMs

def startsAt : PassEnd → DispPc
  | .full => .capCheck
  | .noneEligible now => .decide now
  | .held now _ => .decide now

/-- The next eligibility the dispatcher looks up before it parks. -/
def head (sh : Shared) : PassEnd → Option ℕ
  | .full => none
  | _ => sh.queue.peekNextEligibleAt

/-- No timer, or one strictly later than the pass's clock and not before the hold's end. -/
def ParksWell (e : PassEnd) (timer : Option ℕ) : Prop :=
  ∀ t, timer = some t → (∀ now, e.now = some now → now < t) ∧ ∀ u, e.hold = some u → u ≤ t

/-- The way from the end of a drain pass to the park. -/
def OnWay (e : PassEnd) (sh : Shared) : DispPc → Prop
  | .capCheck => e = .full
  | .decide now => e.now = some now
  | .pop now _ => e = .noneEligible now
  | .readRunning hold => hold = e.hold
  | .peek hold => hold = e.hold ∧ e ≠ .full
  | .arm target => target = sleepUntil (e.head sh) e.hold
  | .parked timer => timer = (sleepUntil (e.head sh) e.hold).map fun t => max t sh.clock
  | _ => False

theorem onWay_look {cfg : ServerConfig} {sh : Shared} {e : PassEnd} {p q : DispPc}
    (he : e.Finds cfg sh) (hp : e.OnWay sh p) (h : Sys.Look cfg sh p q) : e.OnWay sh q := by
  cases h with
  | lock | readClock => cases hp
  | full hfull =>
    obtain rfl : e = .full := hp
    rfl
  | room hroom =>
    obtain rfl : e = .full := hp
    exact absurd hroom (Nat.not_lt.mpr he)
  | @dispatch now hdec | @probe now hdec =>
    cases e with
    | full => cases hp
    | noneEligible now' => exact congrArg _ (Option.some.inj hp)
    | held now' u =>
      obtain rfl := Option.some.inj hp
      exact absurd (hdec.symm.trans he.2) (by simp)
  | @held now u hdec =>
    cases e with
    | full => cases hp
    | noneEligible now' =>
      obtain rfl := Option.some.inj hp
      exact absurd hdec (he.2.1 u)
    | held now' u' =>
      obtain rfl := Option.some.inj hp
      exact congrArg some (Decision.hold.inj (hdec.symm.trans he.2))
  | noneEligible hq =>
    obtain rfl := hp
    rfl
  | stillRoom hroom =>
    refine ⟨hp, ?_⟩
    rintro rfl
    exact absurd hroom (Nat.not_lt.mpr he)
  | stillFull hfull =>
    obtain rfl := hp
    cases e with
    | full => rfl
    | noneEligible | held => exact absurd he.1 (Nat.not_lt.mpr hfull)
  | peek =>
    obtain ⟨rfl, hne⟩ := hp
    cases e with
    | full => exact absurd rfl hne
    | noneEligible | held => rfl
  | arm =>
    obtain rfl := hp
    rfl

end PassEnd

def DispPc.toPark : DispPc → ℕ
  | .capCheck | .decide _ => 5
  | .pop _ _ => 4
  | .readRunning _ => 3
  | .peek _ => 2
  | .arm _ => 1
  | _ => 0

def DispPc.isParked : DispPc → Bool
  | .parked _ => true
  | _ => false

def Act.ofDispatcher : Act → Bool
  | .dispatch | .tick _ => true
  | _ => false

/-- Nobody but the dispatcher takes a step, though time may pass, until it has parked. -/
def Alone (s : Sys) (act : Act) : Prop := s.disp.isParked = false ∧ act.ofDispatcher = true

instance (s : Sys) (act : Act) : Decidable (Alone s act) := inferInstanceAs (Decidable (_ ∧ _))

namespace Sys

variable {cfg : ServerConfig} {act : Act} {s s' : Sys} {e : PassEnd}

/-- What the pass has found is still so, and the dispatcher is on its way. -/
structure Passing (cfg : ServerConfig) (s₀ : Sys) (e : PassEnd) (s : Sys) : Prop where
  finds : e.Finds cfg s.sh
  onWay : e.OnWay s.sh s.disp
  queue : s.sh.queue = s₀.sh.queue

theorem passing_step {s₀ : Sys} (hp : Passing cfg s₀ e s) (hok : Alone s act)
    (h : Step cfg s act s') : Passing cfg s₀ e s' := by
  obtain ⟨he, hway, hqueue⟩ := hp
  obtain ⟨hnot, hact⟩ := hok
  cases h with
  | dispatch h =>
    cases h with
    | look hl => exact ⟨he, PassEnd.onWay_look he hway hl, hqueue⟩
    | pop hd hq =>
      rw [hd] at hway
      obtain rfl := hway
      rw [he.2.2] at hq
      cases hq
    | wake hd =>
      rw [hd] at hnot
      cases hnot
    | register hd | claim hd | mark hd | setRinging hd | spawn hd =>
      rw [hd] at hway
      cases hway
  | tick =>
    refine ⟨by cases e <;> exact he, ?_, hqueue⟩
    dsimp only
    generalize s.disp = d at hnot hway
    cases d with
    | parked timer => cases hnot
    | _ => exact hway
  | _ => cases hact

theorem parksWell_sleepUntil_iff {sh : Shared} (he : e.Finds cfg sh) :
    e.ParksWell ((sleepUntil (e.head sh) e.hold).map fun t => max t sh.clock) ↔
      ∀ u, e.hold = some u → (∀ p ∈ sh.queue.pending, u ≤ p.eligibleAtMs) ∨ u ≤ sh.clock := by
  cases e with
  | full => exact iff_of_true (fun _ h => by cases h) (fun _ h => by cases h)
  | noneEligible now =>
    refine iff_of_true (fun t ht => ⟨fun now' hnow => ?_, fun _ h => by cases h⟩) fun _ h => by cases h
    obtain ⟨t', ht', rfl⟩ := Option.map_eq_some_iff.mp ht
    obtain rfl := Option.some.inj hnow
    have hhead : sh.queue.peekNextEligibleAt = some t' := by
      revert ht'
      cases hpeek : sh.queue.peekNextEligibleAt <;> simp [PassEnd.head, PassEnd.hold, sleepUntil, hpeek]
    have hlt := MemQueue.popEligible_eq_none.mp he.2.2 t' hhead
    omega
  | held now u =>
    have hfut := Breaker.lt_of_decision_hold he.2
    have hiff : ∀ m, PassEnd.ParksWell (.held now u) (some (max m sh.clock)) ↔ u ≤ m ∨ u ≤ sh.clock := by
      intro m
      refine ⟨fun h => ?_, fun h t ht => ?_⟩
      · have := (h _ rfl).2 u rfl
        omega
      · obtain rfl := Option.some.inj ht
        refine ⟨fun now' hnow => ?_, fun u' hu => ?_⟩
        · obtain rfl := Option.some.inj hnow
          omega
        · obtain rfl := Option.some.inj hu
          omega
    cases hpeek : sh.queue.peekNextEligibleAt with
    | none =>
      have hempty := MemQueue.peek_eq_none.mp hpeek
      simp only [PassEnd.head, PassEnd.hold, hpeek, sleepUntil, Option.map_some, hiff, hempty]
      simp
    | some a =>
      have hall : u ≤ a ↔ ∀ p ∈ sh.queue.pending, u ≤ p.eligibleAtMs := by
        obtain ⟨p₀, hp₀, rfl⟩ := MemQueue.peek_mem hpeek
        exact ⟨fun h p hp => h.trans (MemQueue.peek_le hpeek hp), fun h => h p₀ hp₀⟩
      simp only [PassEnd.head, PassEnd.hold, hpeek, sleepUntil, Option.map_some, hiff,
        Option.some.injEq, forall_eq']
      rw [← hall]
      omega

theorem passing_progress {s₀ : Sys} (hp : Passing cfg s₀ e s) (hnot : s.disp.isParked = false) :
    ∃ s', s.step cfg .dispatch = some s' ∧ s'.disp.toPark < s.disp.toPark := by
  obtain ⟨he, hway, -⟩ := hp
  simp only [step]
  unfold dispatch
  cases hd : s.disp with
  | capCheck =>
    rw [hd] at hway
    obtain rfl : e = .full := hway
    exact ⟨_, if_pos he, by simp [DispPc.toPark]⟩
  | decide now =>
    dsimp only
    split
    · exact ⟨_, rfl, by simp [DispPc.toPark]⟩
    · exact ⟨_, rfl, by simp [DispPc.toPark]⟩
    · exact ⟨_, rfl, by simp [DispPc.toPark]⟩
  | pop now probe =>
    rw [hd] at hway
    obtain rfl : e = .noneEligible now := hway
    dsimp only
    rw [he.2.2]
    exact ⟨_, rfl, by simp [DispPc.toPark]⟩
  | readRunning hold =>
    dsimp only
    split_ifs
    · exact ⟨_, rfl, by simp [DispPc.toPark]⟩
    · exact ⟨_, rfl, by simp [DispPc.toPark]⟩
  | peek hold => exact ⟨_, rfl, by simp [DispPc.toPark]⟩
  | arm target => exact ⟨_, rfl, by simp [DispPc.toPark]⟩
  | parked timer =>
    rw [hd] at hnot
    cases hnot
  | lock | readClock | register | claim | mark | setRinging | spawn =>
    rw [hd] at hway
    cases hway

theorem parks {s₀ : Sys} (hp : Passing cfg s₀ e s) :
    ∃ n s' timer, Run (step cfg) Alone s (List.replicate n .dispatch) s' ∧ s'.disp = .parked timer := by
  induction hrank : s.disp.toPark using Nat.strong_induction_on generalizing s with
  | _ rank ih =>
    cases hpark : s.disp.isParked with
    | true =>
      unfold DispPc.isParked at hpark
      split at hpark
      · rename_i timer hd
        exact ⟨0, s, timer, Run.nil, hd⟩
      · cases hpark
    | false =>
      obtain ⟨s₁, hstep, hlt⟩ := passing_progress hp hpark
      have hok : Alone s .dispatch := ⟨hpark, rfl⟩
      obtain ⟨n, s', timer, hrun, hd⟩ :=
        ih _ (hrank ▸ hlt) (passing_step hp hok (step_cases hstep)) rfl
      have first : Run (step cfg) Alone s ([] ++ [.dispatch]) s₁ := Run.snoc Run.nil hok hstep
      exact ⟨n + 1, s', timer, first.append hrun, hd⟩

/-- When a pass has found nothing to dispatch, the dispatcher parks; and it parks as it
should unless the breaker holds the queue while an entry is eligible before the hold ends. -/
theorem parksWell_iff (he : e.Finds cfg s.sh) (hstart : s.disp = e.startsAt) :
    (∃ n s' timer, Run (step cfg) Alone s (List.replicate n .dispatch) s' ∧
      s'.disp = .parked timer) ∧
    ∀ tr s' timer, Run (step cfg) Alone s tr s' → s'.disp = .parked timer →
      (e.ParksWell timer ↔ ∀ u, e.hold = some u →
        (∀ p ∈ s.sh.queue.pending, u ≤ p.eligibleAtMs) ∨ u ≤ s'.sh.clock) := by
  have hpass : Passing cfg s e s := ⟨he, by rw [hstart]; cases e <;> rfl, rfl⟩
  refine ⟨parks hpass, fun tr s' timer hrun hpark => ?_⟩
  obtain ⟨he', hway, hqueue⟩ := hrun.invariant hpass fun _ _ _ hp hok hs =>
    passing_step hp hok (step_cases hs)
  rw [hpark] at hway
  obtain rfl := hway
  rw [← hqueue]
  exact parksWell_sleepUntil_iff he'

def eagerBreaker : ServerConfig :=
  { ServerConfig.default with netCheck := { retryMax := 1, breakerThreshold := 1 } }

def placeCall (i : ℕ) (eligibleAtMs : ℕ) : List Act :=
  [.place "100" ⟨.null, none, none⟩ eligibleAtMs 1 none] ++ List.replicate 4 (.placing i)

/-- A pass that finds only a scheduled call parks on its time. -/
theorem parksWell_scheduled :
    ∃ s s', exec (step eagerBreaker) (init eagerBreaker 0)
        (placeCall 0 1000 ++ List.replicate 3 .dispatch) = some s ∧
      exec (guarded (step eagerBreaker) Alone) s (List.replicate 5 .dispatch) = some s' ∧
      s'.disp = .parked (some 1000) ∧ (PassEnd.noneEligible 0).ParksWell (some 1000) := by
  obtain ⟨s, s', hs, hfinds, hstart, hs', hpark⟩ : ∃ s s', exec (step eagerBreaker)
        (init eagerBreaker 0) (placeCall 0 1000 ++ List.replicate 3 .dispatch) = some s ∧
      (PassEnd.noneEligible 0).Finds eagerBreaker s.sh ∧ s.disp = .decide 0 ∧
      exec (guarded (step eagerBreaker) Alone) s (List.replicate 5 .dispatch) = some s' ∧
      s'.disp = .parked (some 1000) := by
    refine ⟨_, _, rfl, ?_, rfl, rfl, rfl⟩
    exact ⟨by decide, (fun _ h => by cases h), rfl⟩
  refine ⟨s, s', hs, hs', hpark, ?_⟩
  exact ((parksWell_iff hfinds hstart).2 _ s' _ (run_of_guarded hs') hpark).mpr fun _ h => by cases h

/-- A first call's preflight fails and opens the breaker, then a second call is placed. -/
def heldQueue : List Act :=
  placeCall 0 0 ++ List.replicate 9 .dispatch ++
    [.run 0 .go, .run 0 (.probe (.error "no route")), .run 0 .go] ++ placeCall 1 0 ++
    List.replicate 3 .dispatch

/-- The held call keeps the timer at the present: the dispatcher spins. -/
theorem spins_under_hold :
    ∃ s s', exec (step eagerBreaker) (init eagerBreaker 0) heldQueue = some s ∧
      s.disp = (PassEnd.held 0 60000).startsAt ∧ (PassEnd.held 0 60000).Finds eagerBreaker s.sh ∧
      exec (guarded (step eagerBreaker) Alone) s (List.replicate 4 .dispatch) = some s' ∧
      s'.disp = .parked (some 0) ∧ ¬ (PassEnd.held 0 60000).ParksWell (some 0) := by
  refine ⟨_, _, rfl, rfl, ⟨by decide, rfl⟩, rfl, rfl, fun h => ?_⟩
  have hlt := (h 0 rfl).1 0 rfl
  omega

end Sys

end Kutsu
