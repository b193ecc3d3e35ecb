import Kutsu.Proofs.Lifecycle

/-! The dispatcher's promises for any order of steps, panics included: the slot count is
the number of slots held and stays within the cap, nothing is popped early, and every
entry that was pushed is pending, dispatched once, or removed. -/

namespace Kutsu

open Runs

def Obs.pushedEntry : Obs → Option PendingEntry
  | .pushed e => some e
  | _ => none

def Obs.poppedEntry : Obs → Option PendingEntry
  | .popped _ e => some e
  | _ => none

def Obs.removedEntry : Obs → Option PendingEntry
  | .removed e => some e
  | _ => none

def Effect.pushedEntry : Effect → Option PendingEntry
  | .push e => some e
  | _ => none

def Effect.poppedEntry : Effect → Option PendingEntry
  | .pop _ e _ => some e
  | _ => none

def Effect.removedEntry : Effect → Option PendingEntry
  | .remove e _ => some e
  | _ => none

def Attempt.holdsSlot (a : Attempt) : Bool := a.phase.stage.holdsSlot

def DispPc.entry : DispPc → Option PendingEntry
  | .register e _ _ => some e
  | _ => none

def DispPc.claiming : DispPc → Bool
  | .readClock | .decide _ | .pop _ _ | .register _ _ _ | .claim _ _ _ => true
  | _ => false

theorem Stage.holdsSlot_of_fits {st : Stage} {cs : CallState} (h : st.fits cs)
    (hcs : cs = .ringing ∨ cs = .inProgress) : st.holdsSlot = true := by
  cases st with
  | registered => rcases hcs with rfl | rfl <;> cases h
  | slotWake | gone => cases h
  | _ => rfl

theorem Place.attempt_of_fits {v : Place} {cs : CallState} (h : v.fits (some cs))
    (hcs : cs = .ringing ∨ cs = .inProgress) : ∃ st, v = .attempt st ∧ st.holdsSlot = true := by
  cases v with
  | attempt st =>
    obtain ⟨cs', hcs', hfit⟩ := h
    obtain rfl := Option.some.inj hcs'
    exact ⟨st, rfl, Stage.holdsSlot_of_fits hfit hcs⟩
  | settled =>
    obtain rfl := h cs rfl
    rcases hcs with h | h <;> cases h
  | placing pc => cases pc <;> rcases hcs with rfl | rfl <;> cases h
  | _ => rcases hcs with rfl | rfl <;> cases h

/-- A task gives its slot back once, and nothing else it does touches the count. -/
theorem Stage.Step.slot {cfg : ServerConfig} {sh : Shared} {tok : Token} {a : Attempt}
    {input : RunInput} {p q : Stage} {eff : Effect} (h : Stage.Step cfg sh tok a input p q eff) :
    (p = .release ∧ q = .slotWake ∧ eff = .releaseSlot) ∨
      (q.holdsSlot = p.holdsSlot ∧ (sh.apply eff).running = sh.running) := by
  cases h with
  | release => exact Or.inl ⟨rfl, rfl, rfl⟩
  | start hq | preflight hq | reportWake hq | bump d hq =>
    rcases hq with rfl | rfl <;> exact Or.inr ⟨rfl, rfl⟩
  | unreported hr hq => rcases hq with rfl | rfl <;> exact Or.inr ⟨rfl, rfl⟩
  | ringing hq => rcases hq with rfl | rfl | rfl <;> exact Or.inr ⟨rfl, rfl⟩
  | talking he => rcases he with rfl | ⟨q, rfl⟩ | ⟨op, rfl, -⟩ <;> exact Or.inr ⟨rfl, rfl⟩
  | persist he => rcases he with rfl | ⟨rec, rfl⟩ <;> exact Or.inr ⟨rfl, rfl⟩
  | guardDrop how =>
    refine Or.inr ⟨rfl, ?_⟩
    simp only [Shared.apply]
    unfold Shared.unregister
    split <;> rfl
  | panic hi hs =>
    refine Or.inr ⟨?_, ?_⟩
    · cases p <;> first | rfl | cases hs
    · split_ifs <;> rfl
  | _ => exact Or.inr ⟨rfl, rfl⟩

theorem Placing.slot {p : Placing} {now : ℕ} {pc : PlacePc} {eff : Effect}
    (h : p.next now = some (pc, eff)) (sh : Shared) : (sh.apply eff).running = sh.running := by
  unfold next at h
  split at h
  all_goals cases h
  all_goals rfl

theorem Ender.slot {d : Ender} {sh : Shared} {pc : EndPc} {eff : Effect}
    (h : d.next sh = some (pc, eff)) : (sh.apply eff).running = sh.running := by
  unfold next at h
  split at h
  all_goals cases h
  · rfl
  · rfl
  · simp only [Shared.apply]
    split_ifs <;> rfl

namespace Sys

variable {cfg : ServerConfig} {act : Act} {s s' : Sys}

/-- The slot count is the number of slots held; while the dispatcher is about to claim
one there is one free. -/
structure Slots (cfg : ServerConfig) (s : Sys) : Prop where
  held : s.sh.running = s.attempts.countP Attempt.holdsSlot
  le_cap : s.sh.running ≤ cfg.maxConcurrentChannels
  room : s.disp.claiming = true → s.sh.running < cfg.maxConcurrentChannels

theorem slots_init (clock : ℕ) : (init cfg clock).Slots cfg :=
  ⟨rfl, Nat.zero_le _, fun h => by cases h⟩

theorem Slots.keep (hs : s.Slots cfg) (hrun : s'.sh.running = s.sh.running)
    (hatt : s'.attempts.countP Attempt.holdsSlot = s.attempts.countP Attempt.holdsSlot)
    (hd : s'.disp.claiming = true → s.disp.claiming = true) : s'.Slots cfg :=
  ⟨hrun.trans (hs.held.trans hatt.symm), hrun.trans_le hs.le_cap,
    fun h => hrun.trans_lt (hs.room (hd h))⟩

theorem slots_dispatch (hs : s.Slots cfg) (hal : s.Aligned) (h : Dispatch cfg s s') :
    s'.Slots cfg := by
  have hmove : ∀ (ph : Phase) (st : Stage) {tok : Token}, s.disp.hand = some (tok, st) →
      (s.setPhase tok ph).countP Attempt.holdsSlot + st.holdsSlot.toNat =
        s.attempts.countP Attempt.holdsSlot + ph.stage.holdsSlot.toNat := by
    intro ph st tok hd
    obtain ⟨a, ha, rfl⟩ := hal.hand tok st hd
    rw [setPhase_eq ha]
    exact Counting.countP_set (b := { a with phase := ph }) ha
  cases h with
  | @look pc hl =>
    generalize hd : s.disp = d at hl
    cases hl with
    | room hr => exact ⟨hs.held, hs.le_cap, fun _ => hr⟩
    | readClock | dispatch | probe =>
      exact ⟨hs.held, hs.le_cap, fun _ => hs.room (by rw [hd]; rfl)⟩
    | _ => exact ⟨hs.held, hs.le_cap, fun h => by cases h⟩
  | pop hd hq => exact hs.keep rfl rfl fun _ => by rw [hd]; rfl
  | register hd =>
    refine hs.keep ?_ ?_ fun _ => by rw [hd]; rfl
    · simp only [Shared.apply]
      unfold Shared.unregister
      split <;> rfl
    · rw [Counting.countP_concat]
      rfl
  | @claim tok now probe hd =>
    have hroom := hs.room (by rw [hd]; rfl)
    have hcap := cfg.maxConcurrentChannels_lt
    have hadd : (s.sh.apply .claimSlot).running = s.sh.running + 1 := if_neg (by omega)
    have hcount := hmove .claimed .registered (by rw [hd]; rfl)
    have hheld := hs.held
    simp only [Phase.stage, Stage.holdsSlot, Bool.toNat_false, Bool.toNat_true] at hcount
    refine ⟨?_, ?_, fun h => ?_⟩
    · dsimp only
      omega
    · dsimp only
      omega
    · cases probe <;> cases h
  | mark hd => exact hs.keep rfl rfl fun h => by cases h
  | setRinging hd =>
    have hcount := hmove .rung .claimed (by rw [hd]; rfl)
    exact hs.keep rfl (Nat.add_right_cancel hcount) fun h => by cases h
  | spawn hd =>
    have hcount := hmove .start .rung (by rw [hd]; rfl)
    exact hs.keep rfl (Nat.add_right_cancel hcount) fun h => by cases h
  | wake hd hp => exact hs.keep rfl rfl fun h => by cases h

theorem slots_step (hs : s.Slots cfg) (hal : s.Aligned) (h : Step cfg s act s') : s'.Slots cfg := by
  cases h with
  | tick now => exact ⟨hs.held, hs.le_cap, hs.room⟩
  | place => exact hs.keep rfl rfl fun h => h
  | placing hp hn hl => exact hs.keep (Placing.slot hn _) rfl fun h => h
  | dispatch h => exact slots_dispatch hs hal h
  | timer hd ht => exact hs.keep rfl rfl fun h => by cases h
  | @run tok input a phase eff ha hn hl =>
    have hset := Counting.countP_set (p := Attempt.holdsSlot) (b := { a with phase }) ha
    simp only [Attempt.holdsSlot] at hset
    rcases (Attempt.next_step hn).slot with ⟨hp, hq, rfl⟩ | ⟨hslot, hrun⟩
    · rw [hp, hq] at hset
      have hheld := hs.held
      have hcap := hs.le_cap
      have hpos : 0 < s.sh.running := by
        rw [hheld]
        exact Counting.countP_pos ha (by rw [Attempt.holdsSlot, hp]; rfl)
      have hsub : (s.sh.apply .releaseSlot).running = s.sh.running - 1 := if_neg (by omega)
      simp only [Stage.holdsSlot, Bool.toNat_true, Bool.toNat_false] at hset
      refine ⟨?_, ?_, fun h => ?_⟩
      · dsimp only [Attempt.holdsSlot] at hheld ⊢
        omega
      · dsimp only
        omega
      · have hroom := hs.room h
        dsimp only
        omega
    · rw [hslot] at hset
      exact hs.keep hrun (Nat.add_right_cancel hset) fun h => h
  | endCall i hl =>
    refine hs.keep ?_ rfl fun h => h
    rcases s.sh.endCall_cases i with ⟨e, rest, -, h⟩ | ⟨tok, -, -, h⟩ | ⟨-, -, h⟩
    all_goals
      rw [h]
      rfl
  | ender hd hn => exact hs.keep (Ender.slot hn) rfl fun h => h

theorem Slots.running_pos (hs : s.Slots cfg) {tok : Token} {a : Attempt}
    (ha : s.attempts[tok]? = some a) (hst : a.phase.stage = .release) : 0 < s.sh.running := by
  rw [hs.held]
  exact Counting.countP_pos ha (by rw [Attempt.holdsSlot, hst]; rfl)

end Sys

theorem Shared.entries_logs (sh : Shared) (eff : Effect) :
    (sh.logs eff).filterMap Obs.pushedEntry = eff.pushedEntry.toList ∧
      (sh.logs eff).filterMap Obs.poppedEntry = eff.poppedEntry.toList ∧
      (sh.logs eff).filterMap Obs.removedEntry = eff.removedEntry.toList := by
  cases eff with
  | register i | dropGuard tok i =>
    simp only [logs]
    cases sh.cancels.lookup i <;> exact ⟨rfl, rfl, rfl⟩
  | send tok i =>
    simp only [logs]
    split_ifs <;> exact ⟨rfl, rfl, rfl⟩
  | _ => exact ⟨rfl, rfl, rfl⟩

theorem Shared.pending_perm {sh : Shared} {eff : Effect} (h : eff.plain = true)
    (hnew : ∀ e, eff = .push e → ∀ e' ∈ sh.queue.pending, e'.callId ≠ e.callId) :
    (eff.pushedEntry.toList ++ sh.queue.pending).Perm ((sh.apply eff).queue.pending ++
      eff.poppedEntry.toList ++ eff.removedEntry.toList) := by
  cases eff with
  | pop | remove | register => cases h
  | push e =>
    simp only [Effect.pushedEntry, Effect.poppedEntry, Effect.removedEntry, Option.toList_some,
      Option.toList_none, List.append_nil]
    exact (MemQueue.push_perm (hnew e rfl)).symm
  | dropGuard | send =>
    rw [(rewired_apply sh rfl).queue]
    simp [Effect.pushedEntry, Effect.poppedEntry, Effect.removedEntry]
  | _ => simp [apply, Effect.pushedEntry, Effect.poppedEntry, Effect.removedEntry]

namespace Sys

variable {cfg : ServerConfig} {act : Act} {s s' : Sys}

/-- Every entry that was pushed is pending, was popped or was removed; every entry that was
popped is the entry of one attempt, or still in the dispatcher's hand. -/
structure Accounts (s : Sys) : Prop where
  pushed : (s.sh.log.filterMap Obs.pushedEntry).Perm (s.sh.queue.pending ++
    s.sh.log.filterMap Obs.poppedEntry ++ s.sh.log.filterMap Obs.removedEntry)
  popped : s.sh.log.filterMap Obs.poppedEntry = s.attempts.map (·.entry) ++ s.disp.entry.toList
  eligible : ∀ now e, .popped now e ∈ s.sh.log → e.eligibleAtMs ≤ now

theorem accounts_of_effect (ha : s.Accounts) (eff : Effect) (hsh : s'.sh = s.sh.apply eff)
    (hq : (eff.pushedEntry.toList ++ s.sh.queue.pending).Perm
      ((s.sh.apply eff).queue.pending ++ eff.poppedEntry.toList ++ eff.removedEntry.toList))
    (hpop : s'.attempts.map (·.entry) ++ s'.disp.entry.toList =
      s.attempts.map (·.entry) ++ s.disp.entry.toList ++ eff.poppedEntry.toList)
    (helig : ∀ now e rest, eff = .pop now e rest → e.eligibleAtMs ≤ now) : s'.Accounts := by
  obtain ⟨hpushed, hpopped, hremoved⟩ := s.sh.entries_logs eff
  refine ⟨?_, ?_, fun now e he => ?_⟩
  · classical
    have hold := ha.pushed
    rw [hsh, Shared.log_apply]
    simp only [List.filterMap_append, hpushed, hpopped, hremoved]
    rw [List.perm_iff_count] at hold hq ⊢
    intro x
    have := hold x
    have := hq x
    simp only [List.count_append] at *
    omega
  · rw [hsh, Shared.log_apply, List.filterMap_append, hpopped, ha.popped, hpop]
  · rw [hsh, Shared.log_apply] at he
    rcases List.mem_append.mp he with hold | hnew
    · exact ha.eligible now e hold
    · have hin : e ∈ (s.sh.logs eff).filterMap Obs.poppedEntry :=
        List.mem_filterMap.mpr ⟨_, hnew, rfl⟩
      cases eff with
      | pop now' e' rest =>
        obtain ⟨rfl, rfl⟩ := Obs.popped.inj (List.mem_singleton.mp hnew)
        exact helig now e rest rfl
      | _ =>
        rw [hpopped] at hin
        cases hin

theorem accounts_init (clock : ℕ) : (init cfg clock).Accounts :=
  ⟨List.Perm.refl _, rfl, fun _ _ h => by cases h⟩

theorem accounts_of_quiet (ha : s.Accounts) (eff : Effect) (hsh : s'.sh = s.sh.apply eff)
    (hquiet : eff.pushedEntry = none ∧ eff.poppedEntry = none ∧ eff.removedEntry = none)
    (hq : (s.sh.apply eff).queue = s.sh.queue)
    (hatt : s'.attempts.map (·.entry) = s.attempts.map (·.entry))
    (hd : s'.disp.entry = s.disp.entry) : s'.Accounts := by
  obtain ⟨hpush, hpop, hrem⟩ := hquiet
  refine accounts_of_effect ha eff hsh ?_ ?_ ?_
  · simp [hpush, hpop, hrem, hq]
  · rw [hatt, hd, hpop]
    exact (List.append_nil _).symm
  · rintro now e rest rfl
    cases hpop

theorem accounts_of_plain (ha : s.Accounts) (eff : Effect) (hsh : s'.sh = s.sh.apply eff)
    (hplain : eff.plain = true)
    (hnew : ∀ e, eff = .push e → ∀ e' ∈ s.sh.queue.pending, e'.callId ≠ e.callId)
    (hatt : s'.attempts.map (·.entry) = s.attempts.map (·.entry)) (hd : s'.disp = s.disp) :
    s'.Accounts := by
  have hpop : eff.poppedEntry = none := by cases eff <;> first | rfl | cases hplain
  refine accounts_of_effect ha eff hsh (Shared.pending_perm hplain hnew) ?_ ?_
  · rw [hatt, hd, hpop]
    exact (List.append_nil _).symm
  · rintro now e rest rfl
    cases hpop

theorem accounts_dispatch (ha : s.Accounts) (hal : s.Aligned) (h : Dispatch cfg s s') :
    s'.Accounts := by
  have hmove : ∀ (ph : Phase) (st : Stage) {tok : Token}, s.disp.hand = some (tok, st) →
      (s.setPhase tok ph).map (·.entry) = s.attempts.map (·.entry) := by
    intro ph st tok hd
    obtain ⟨a, ha, -⟩ := hal.hand tok st hd
    rw [setPhase_eq ha]
    exact Counting.map_set_of_eq ha rfl
  cases h with
  | look hl =>
    have hno : ∀ {p q : DispPc}, Look cfg s.sh p q → q.entry = p.entry := by
      intro p q hl
      cases hl <;> rfl
    exact accounts_of_quiet ha .idle rfl ⟨rfl, rfl, rfl⟩ rfl rfl (hno hl)
  | @pop now probe e rest hd hq =>
    obtain ⟨hle, hpend⟩ := MemQueue.popEligible_some hq
    refine accounts_of_effect ha (.pop now e rest) rfl ?_ ?_ ?_
    · have hswap : (e :: rest.pending).Perm (rest.pending ++ [e]) :=
        (List.perm_append_singleton e rest.pending).symm
      simpa [Effect.pushedEntry, Effect.poppedEntry, Effect.removedEntry, hpend, Shared.apply] using hswap
    · rw [hd]
      simp [DispPc.entry, Effect.poppedEntry]
    · rintro now' e' rest' heq
      obtain ⟨rfl, rfl, rfl⟩ := Effect.pop.inj heq
      exact hle
  | @register e now probe hd =>
    refine accounts_of_effect ha (.register e.callId) rfl ?_ ?_ fun _ _ _ h => by cases h
    · rw [(s.sh.rewired_apply rfl).queue]
      simp [Effect.pushedEntry, Effect.poppedEntry, Effect.removedEntry]
    · rw [hd]
      simp [DispPc.entry, Effect.poppedEntry]
  | @claim tok now probe hd =>
    refine accounts_of_quiet ha .claimSlot rfl ⟨rfl, rfl, rfl⟩ rfl
      (hmove .claimed .registered (by rw [hd]; rfl)) ?_
    rw [hd]
    cases probe <;> rfl
  | mark hd =>
    exact accounts_of_quiet ha (.markProbe _ _) rfl ⟨rfl, rfl, rfl⟩ rfl rfl (by rw [hd]; rfl)
  | setRinging hd =>
    exact accounts_of_quiet ha (.store _) rfl ⟨rfl, rfl, rfl⟩ rfl
      (hmove .rung .claimed (by rw [hd]; rfl)) (by rw [hd]; rfl)
  | spawn hd =>
    exact accounts_of_quiet ha .idle rfl ⟨rfl, rfl, rfl⟩ rfl
      (hmove .start .rung (by rw [hd]; rfl)) (by rw [hd]; rfl)
  | wake hd hp =>
    exact accounts_of_quiet ha .consume rfl ⟨rfl, rfl, rfl⟩ rfl rfl (by rw [hd]; rfl)

theorem accounts_step (ha : s.Accounts) (hc : s.Custody) (hal : s.Aligned)
    (h : Step cfg s act s') : s'.Accounts := by
  cases h with
  | tick now => exact ⟨ha.pushed, ha.popped, ha.eligible⟩
  | place => exact accounts_of_quiet ha .mint rfl ⟨rfl, rfl, rfl⟩ rfl rfl rfl
  | @placing i p pc eff hp hn hl =>
    exact accounts_of_plain ha eff rfl (Placing.plain hn) (placing_pushes_fresh hc hp hn) rfl rfl
  | dispatch h => exact accounts_dispatch ha hal h
  | timer hd ht =>
    exact accounts_of_quiet ha .idle rfl ⟨rfl, rfl, rfl⟩ rfl rfl (by rw [hd]; rfl)
  | @run tok input a phase eff hatt hn hl =>
    have hstep := Attempt.next_step hn
    have hpush := attempt_pushes_fresh hc hatt hstep rfl
    exact accounts_of_plain ha eff rfl hstep.plain hpush (Counting.map_set_of_eq hatt rfl) rfl
  | endCall i hl =>
    rcases s.sh.endCall_cases i with ⟨e, rest, hq, h⟩ | ⟨tok, -, -, h⟩ | ⟨-, -, h⟩
    · refine accounts_of_effect ha (.remove e rest) (by rw [h]) ?_ ?_ fun _ _ _ h => by cases h
      · obtain ⟨-, hperm⟩ := MemQueue.remove_some hq
        have hswap := hperm.trans (List.perm_append_singleton e rest.pending).symm
        simpa [Effect.pushedEntry, Effect.poppedEntry, Effect.removedEntry, Shared.apply] using hswap
      · exact (List.append_nil _).symm
    · exact accounts_of_quiet ha (.takeSender tok i) (by rw [h]) ⟨rfl, rfl, rfl⟩ rfl rfl rfl
    · exact accounts_of_quiet ha (.noSender i) (by rw [h]) ⟨rfl, rfl, rfl⟩ rfl rfl rfl
  | @ender i d pc eff hd hn =>
    refine accounts_of_plain ha eff rfl (Ender.plain hn) ?_ rfl rfl
    rintro e rfl
    exact absurd hn Ender.not_push

/-- The records of calls that are under way. -/
def busyRecords (s : Sys) : List (Sigma fun _ : CallId => CallRecord) :=
  s.sh.store.inner.entries.filter fun e => e.2.state = .ringing ∨ e.2.state = .inProgress

/-- Every such call has an attempt of its own, and that attempt holds a slot. -/
theorem Orderly.busyRecords_le (ho : s.Orderly) :
    s.busyRecords.length ≤ s.attempts.countP Attempt.holdsSlot := by
  have hkeys : (s.busyRecords.map Sigma.fst).Nodup :=
    s.sh.store.inner.nodupKeys.sublist List.filter_sublist
  rw [← List.length_map Sigma.fst]
  refine Counting.length_le_countP Attempt.id hkeys fun id hid => ?_
  obtain ⟨⟨id, r⟩, hmem, rfl⟩ := List.mem_map.mp hid
  obtain ⟨hin, hbusy⟩ := List.mem_filter.mp hmem
  have hget : s.sh.store.get id = some r := AList.mem_lookup_iff.mpr hin
  obtain ⟨v, hv⟩ := exists_at ho.custody id
  have hfit := ho.fits id v hv
  rw [hget] at hfit
  obtain ⟨st, rfl, hslot⟩ := Place.attempt_of_fits hfit (of_decide_eq_true hbusy)
  generalize hpl : Place.attempt st = pl at hv
  cases hv with
  | @attempt tok a ha hown =>
    obtain rfl := Place.attempt.inj hpl
    exact ⟨a, List.mem_of_getElem? ha, hslot, beq_iff_eq.mp (Bool.and_eq_true_iff.mp hown).1⟩
  | _ => cases hpl

theorem Accounts.leaves (ha : s.Accounts) (ha' : s'.Accounts) (h : Step cfg s act s')
    {e : PendingEntry} (he : e ∈ s.sh.queue.pending) :
    e ∈ s'.sh.queue.pending ∨ e ∈ (news s s').filterMap Obs.poppedEntry ∨
      e ∈ (news s s').filterMap Obs.removedEntry := by
  classical
  have hold := List.perm_iff_count.mp ha.pushed e
  have hnew := List.perm_iff_count.mp ha'.pushed e
  have hpos := List.count_pos_iff.mpr he
  rw [h.log_eq] at hnew
  simp only [List.filterMap_append, List.count_append] at hold hnew
  by_contra hno
  simp only [not_or, ← List.count_eq_zero] at hno
  omega

structure Scheduled (cfg : ServerConfig) (s : Sys) : Prop where
  slots : s.Slots cfg
  no_underflow : ∀ (tok : Token) (a : Attempt), s.attempts[tok]? = some a → a.phase.stage = .release → 0 < s.sh.running
  accounts : s.Accounts
  leaves : ∀ act s', s.step cfg act = some s' → ∀ e ∈ s.sh.queue.pending,
    e ∈ s'.sh.queue.pending ∨ e ∈ (news s s').filterMap Obs.poppedEntry ∨
      e ∈ (news s s').filterMap Obs.removedEntry

/-- The scheduler's promises hold at every point of every run, and without a panic no more
calls are under way than the cap allows. -/
theorem scheduler_safety {clock : ℕ} {tr : List Act}
    (h : Run (step cfg) Always (init cfg clock) tr s) :
    s.Scheduled cfg ∧
      ((∀ act ∈ tr, ¬ act.panics) → s.busyRecords.length ≤ cfg.maxConcurrentChannels) := by
  have hsound := sound_run h
  obtain ⟨-, hslots, hacc⟩ := h.invariant (I := fun s => s.Sound ∧ s.Slots cfg ∧ s.Accounts)
    ⟨sound_init clock, slots_init clock, accounts_init clock⟩ fun _ _ _ ⟨hs, hslots, hacc⟩ _ hstep =>
      have hstep := step_cases hstep
      ⟨sound_step hs hstep, slots_step hslots hs.aligned hstep,
        accounts_step hacc hs.custody hs.aligned hstep⟩
  refine ⟨⟨hslots, fun _ _ ha hst => hslots.running_pos ha hst, hacc, ?_⟩, fun hcalm => ?_⟩
  · intro act s' hstep e he
    have hstep := step_cases hstep
    exact hacc.leaves (accounts_step hacc hsound.custody hsound.aligned hstep) hstep he
  · have ho := orderly_run (h.restrict fun _ => hcalm)
    calc s.busyRecords.length ≤ s.attempts.countP Attempt.holdsSlot := ho.busyRecords_le
      _ = s.sh.running := hslots.held.symm
      _ ≤ cfg.maxConcurrentChannels := hslots.le_cap

theorem scheduler_safety_unanswered :
    ∃ s, exec (step noPreflight) (init noPreflight 0) unanswered = some s ∧ s.sh.running = 1 ∧
      s.Scheduled noPreflight ∧ s.busyRecords.length ≤ noPreflight.maxConcurrentChannels := by
  have hrun : (exec (step noPreflight) (init noPreflight 0) unanswered).any
      (fun s => s.sh.running = 1) := by decide
  obtain ⟨s, hs, hone⟩ := (Option.any_eq_true _ _).mp hrun
  obtain ⟨hsched, hbusy⟩ := scheduler_safety (run_of_exec hs)
  exact ⟨s, hs, of_decide_eq_true hone, hsched, hbusy (by decide)⟩

end Sys

end Kutsu
