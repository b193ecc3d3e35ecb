import Mathlib.Algebra.Order.BigOperators.Group.Finset
import Kutsu.Proofs.Retries
import Kutsu.Proofs.Scheduler

/-! The books of the metrics: how many calls were placed, and how many of them are in the
queue, dispatched, or counted under a disposition. -/

namespace Kutsu

open Runs

/-- The sum of the twelve disposition counters. -/
def Counters.settled (c : Counters) : ℕ :=
  c.completed + c.failed + c.cancelled + c.busy + c.noAnswer + c.rejected + c.notFound + c.unavailable +
    c.voicemail + c.announcement + c.ivr + c.hold

def Obs.isPushed : Obs → Bool
  | .pushed _ => true
  | _ => false

def Obs.isFinalized : Obs → Bool
  | .finalized _ _ => true
  | _ => false

def Obs.isAbandoned : Obs → Bool
  | .abandoned _ => true
  | _ => false

def Effect.isPush : Effect → Bool
  | .push _ => true
  | _ => false

def Effect.isFinalize : Effect → Bool
  | .finalize _ => true
  | _ => false

def Effect.isBump : Effect → Bool
  | .bump _ _ => true
  | _ => false

def Effect.isCount : Effect → Bool
  | .countPlaced => true
  | _ => false

def PlacePc.owesPush : PlacePc → Bool
  | .push => true
  | _ => false

def Stage.owesPush : Stage → Bool
  | .requeuePush => true
  | _ => false

/-- Finalized and not counted yet. -/
def Stage.owesBump : Stage → Bool
  | .bumping _ => true
  | _ => false

def EndPc.owesBump : EndPc → Bool
  | .bump _ => true
  | _ => false

def Sys.dispatched (s : Sys) : ℕ :=
  s.disp.entry.toList.length + s.attempts.countP (·.phase.stage.owns) + s.sh.log.countP Obs.isAbandoned

/-- No `place_call_at`, `requeue` or `finalize_call` is part-way through. -/
structure Sys.Quiet (s : Sys) : Prop where
  placing : ∀ p ∈ s.placing, p.pc.unpushed = false
  attempts : ∀ a ∈ s.attempts, a.phase.stage.owesPush = false ∧ a.phase.stage.owesBump = false
  enders : ∀ d ∈ s.enders, d.pc.finalizes = false ∧ d.pc.owesBump = false

def Act.panicking : Act → Option Token
  | .run tok .panic => some tok
  | _ => none

/-- No task panics inside `requeue` or `finalize_call`, which would then never be complete. -/
def Untorn (s : Sys) (act : Act) : Prop :=
  ∀ a ∈ act.panicking.bind (s.attempts[·]?), a.phase.stage.owesPush = false ∧ a.phase.stage.owesBump = false

namespace Shared

theorem settled_bump (c : Counters) (d : Disposition) : (c.bumpDisposition d).settled = c.settled + 1 := by
  cases d <;> simp only [Counters.bumpDisposition, Counters.settled] <;> omega

theorem counters_books (sh : Shared) (eff : Effect) :
    (sh.apply eff).counters.placed = sh.counters.placed + eff.isCount.toNat ∧
      (sh.apply eff).counters.settled = sh.counters.settled + eff.isBump.toNat := by
  cases eff with
  | bump id d => exact ⟨by cases d <;> rfl, settled_bump _ _⟩
  | register | dropGuard | send =>
    rw [(rewired_apply sh rfl).counters]
    exact ⟨rfl, rfl⟩
  | _ => exact ⟨rfl, rfl⟩

theorem log_books (sh : Shared) (eff : Effect) :
    (sh.logs eff).countP Obs.isPushed = eff.isPush.toNat ∧
      (sh.logs eff).countP Obs.isFinalized = eff.isFinalize.toNat := by
  rw [countP_entries (fun _ => rfl) (fun _ _ => rfl) fun _ _ => rfl,
    countP_entries (fun _ => rfl) (fun _ _ => rfl) fun _ _ => rfl]
  cases eff <;> exact ⟨rfl, rfl⟩

end Shared

/-- A task keeps its books: what it counts it pushes, what it finalizes it counts. -/
theorem Stage.Step.books {cfg : ServerConfig} {sh : Shared} {tok : Token} {a : Attempt}
    {input : RunInput} {p q : Stage} {eff : Effect} (h : Stage.Step cfg sh tok a input p q eff)
    (hi : input = .panic → p.owesPush = false ∧ p.owesBump = false) :
    p.owesPush.toNat + eff.isCount.toNat = q.owesPush.toNat + eff.isPush.toNat ∧
      p.owesBump.toNat + eff.isFinalize.toNat = q.owesBump.toNat + eff.isBump.toNat := by
  cases h with
  | start hq | preflight hq | reportWake hq => rcases hq with rfl | rfl <;> exact ⟨rfl, rfl⟩
  | unreported hr hq => rcases hq with rfl | rfl <;> exact ⟨rfl, rfl⟩
  | ringing hq => rcases hq with rfl | rfl | rfl <;> exact ⟨rfl, rfl⟩
  | talking he => rcases he with rfl | ⟨q, rfl⟩ | ⟨op, rfl, -⟩ <;> exact ⟨rfl, rfl⟩
  | persist he => rcases he with rfl | ⟨rec, rfl⟩ <;> exact ⟨rfl, rfl⟩
  | bump d hq => rcases hq with rfl | rfl <;> exact ⟨rfl, rfl⟩
  | panic hi' hs =>
    obtain ⟨hpush, hbump⟩ := hi hi'
    rw [hpush, hbump]
    split_ifs <;> exact ⟨rfl, rfl⟩
  | _ => exact ⟨rfl, rfl⟩

theorem Placing.books {p : Placing} {now : ℕ} {pc : PlacePc} {eff : Effect} (h : p.next now = some (pc, eff)) :
    p.pc.owesPush.toNat + eff.isCount.toNat = pc.owesPush.toNat + eff.isPush.toNat ∧
      eff.isFinalize = false ∧ eff.isBump = false := by
  unfold next at h
  split at h <;> rename_i hpc
  all_goals cases h
  all_goals rw [hpc]
  all_goals exact ⟨rfl, rfl, rfl⟩

theorem Ender.books {d : Ender} {sh : Shared} {pc : EndPc} {eff : Effect} (h : d.next sh = some (pc, eff)) :
    d.pc.owesBump.toNat + eff.isFinalize.toNat = pc.owesBump.toNat + eff.isBump.toNat ∧
      eff.isCount = false ∧ eff.isPush = false := by
  unfold next at h
  split at h <;> rename_i hpc
  all_goals cases h
  all_goals rw [hpc]
  all_goals exact ⟨rfl, rfl, rfl⟩

def Obs.isSettled : Obs → Bool
  | .finalized _ _ | .abandoned _ => true
  | _ => false

def Obs.settledId : Obs → CallId
  | .finalized id _ | .abandoned id => id
  | _ => ""

theorem Obs.settles_eq (id : CallId) (o : Obs) : o.settles id = (o.settledId == id && o.isSettled) := by
  cases o with
  | finalized | abandoned => exact (Bool.and_true _).symm
  | _ => exact (Bool.and_false _).symm

theorem Obs.countP_isSettled (log : List Obs) :
    log.countP Obs.isSettled = log.countP Obs.isFinalized + log.countP Obs.isAbandoned := by
  induction log with
  | nil => rfl
  | cons o log ih =>
    rw [List.countP_cons, List.countP_cons, List.countP_cons, ih]
    cases o <;> simp only [isSettled, isFinalized, isAbandoned, Bool.false_eq_true, if_true, if_false] <;> omega

def Obs.pushedId : Obs → CallId
  | .pushed e => e.callId
  | _ => ""

theorem Obs.pushes_eq (id : CallId) (o : Obs) : o.pushes id = (o.pushedId == id && o.isPushed) := by
  cases o with
  | pushed => exact (Bool.and_true _).symm
  | _ => exact (Bool.and_false _).symm

theorem DispPc.inHand_eq (pc : DispPc) (id : CallId) :
    pc.inHand id = pc.entry.any fun e => e.callId == id := by
  cases pc <;> rfl

namespace Sys

variable {cfg : ServerConfig} {act : Act} {s s' : Sys} {id : CallId}

def owedPushes (s : Sys) : ℕ := s.placing.countP (·.pc.owesPush) + s.attempts.countP (·.phase.stage.owesPush)

def owedBumps (s : Sys) : ℕ := s.attempts.countP (·.phase.stage.owesBump) + s.enders.countP (·.pc.owesBump)

/-- What is counted as placed was pushed or is about to be; what was finalized is counted or
is about to be. -/
structure Booked (s : Sys) : Prop where
  placed : s.sh.counters.placed = s.sh.log.countP Obs.isPushed + s.owedPushes
  settled : s.sh.counters.settled + s.owedBumps = s.sh.log.countP Obs.isFinalized

theorem booked_init (clock : ℕ) : (init cfg clock).Booked := ⟨rfl, rfl⟩

theorem booked_of_effect (hb : s.Booked) (eff : Effect) (hsh : s'.sh = s.sh.apply eff)
    (hpush : s.owedPushes + eff.isCount.toNat = s'.owedPushes + eff.isPush.toNat)
    (hbump : s.owedBumps + eff.isFinalize.toNat = s'.owedBumps + eff.isBump.toNat) : s'.Booked := by
  obtain ⟨hcount, hsettled⟩ := s.sh.counters_books eff
  obtain ⟨hpushed, hfinal⟩ := s.sh.log_books eff
  obtain ⟨hplaced, hold⟩ := hb
  constructor
  · rw [hsh, Shared.log_apply, List.countP_append, hcount, hpushed]
    omega
  · rw [hsh, Shared.log_apply, List.countP_append, hsettled, hfinal]
    omega

theorem booked_dispatch (hb : s.Booked) (hal : s.Aligned) (h : Dispatch cfg s s') : s'.Booked := by
  have hmove : ∀ (ph : Phase) (f : Stage → Bool) {tok : Token} {st : Stage}, s.disp.hand = some (tok, st) →
      f ph.stage = f st → (s.setPhase tok ph).countP (fun a => f a.phase.stage) =
        s.attempts.countP fun a => f a.phase.stage := by
    intro ph f tok st hd hf
    obtain ⟨a, ha, rfl⟩ := hal.hand tok st hd
    have hset := Counting.countP_set (p := fun a => f a.phase.stage) (b := { a with phase := ph }) ha
    rw [setPhase_eq ha]
    simp only [hf] at hset
    omega
  have hhand : ∀ (ph : Phase) (st : Stage) {tok : Token}, s.disp.hand = some (tok, st) →
      ph.stage.owesPush = st.owesPush → ph.stage.owesBump = st.owesBump →
      s'.attempts = s.setPhase tok ph → s'.placing = s.placing → s'.enders = s.enders →
      s'.owedPushes = s.owedPushes ∧ s'.owedBumps = s.owedBumps := by
    intro ph st tok hd hp hbu hatt hpl hen
    rw [owedPushes, owedBumps, hatt, hpl, hen, hmove ph Stage.owesPush hd hp, hmove ph Stage.owesBump hd hbu]
    exact ⟨rfl, rfl⟩
  cases h with
  | look hl => exact booked_of_effect hb .idle rfl rfl rfl
  | pop hd hq => exact booked_of_effect hb (.pop _ _ _) rfl rfl rfl
  | register hd =>
    refine booked_of_effect hb (.register _) rfl ?_ ?_
    · simp only [owedPushes, Counting.countP_concat]
      rfl
    · simp only [owedBumps, Counting.countP_concat]
      rfl
  | @claim tok now probe hd =>
    obtain ⟨hp, hbu⟩ := hhand .claimed .registered (by rw [hd]; rfl) rfl rfl rfl rfl rfl
    exact booked_of_effect hb .claimSlot rfl (by rw [hp]; rfl) (by rw [hbu]; rfl)
  | mark hd => exact booked_of_effect hb (.markProbe _ _) rfl rfl rfl
  | setRinging hd =>
    obtain ⟨hp, hbu⟩ := hhand .rung .claimed (by rw [hd]; rfl) rfl rfl rfl rfl rfl
    exact booked_of_effect hb (.store _) rfl (by rw [hp]; rfl) (by rw [hbu]; rfl)
  | spawn hd =>
    obtain ⟨hp, hbu⟩ := hhand .start .rung (by rw [hd]; rfl) rfl rfl rfl rfl rfl
    exact booked_of_effect hb .idle rfl (by rw [hp]; rfl) (by rw [hbu]; rfl)
  | wake hd hp => exact booked_of_effect hb .consume rfl rfl rfl

theorem booked_step (hb : s.Booked) (hal : s.Aligned) (hok : Untorn s act) (h : Step cfg s act s') :
    s'.Booked := by
  cases h with
  | tick now => exact ⟨hb.placed, hb.settled⟩
  | place =>
    refine booked_of_effect hb .mint rfl ?_ rfl
    simp only [owedPushes, Counting.countP_concat]
    rfl
  | @placing i p pc eff hp hn hl =>
    obtain ⟨hpush, hfin, hbump⟩ := Placing.books hn
    have hset := Counting.countP_set (p := fun p => p.pc.owesPush) (b := { p with pc }) hp
    refine booked_of_effect hb eff rfl ?_ ?_
    · simp only [owedPushes]
      dsimp only at hset
      omega
    · rw [hfin, hbump]
      rfl
  | dispatch h => exact booked_dispatch hb hal h
  | timer hd ht => exact ⟨hb.placed, hb.settled⟩
  | @run tok input a phase eff ha hn hl =>
    have hi : input = .panic → a.phase.stage.owesPush = false ∧ a.phase.stage.owesBump = false := by
      rintro rfl
      exact hok a ha
    obtain ⟨hpush, hbump⟩ := (Attempt.next_step hn).books hi
    have hset := Counting.countP_set (p := fun a => a.phase.stage.owesPush) (b := { a with phase }) ha
    have hset' := Counting.countP_set (p := fun a => a.phase.stage.owesBump) (b := { a with phase }) ha
    refine booked_of_effect hb eff rfl ?_ ?_
    · simp only [owedPushes]
      dsimp only at hset
      omega
    · simp only [owedBumps]
      dsimp only at hset'
      omega
  | endCall i =>
    rcases s.sh.endCall_cases i with ⟨e, rest, -, h⟩ | ⟨tok, -, -, h⟩ | ⟨-, -, h⟩
    all_goals
      refine booked_of_effect hb (s.sh.endCall i).2 rfl (by rw [h]; rfl) ?_
      simp only [h, owedBumps, Counting.countP_concat, EndPc.owesBump]
      rfl
  | @ender i d pc eff hd hn =>
    obtain ⟨hbump, hcount, hpush⟩ := Ender.books hn
    have hset := Counting.countP_set (p := fun d => d.pc.owesBump) (b := { d with pc }) hd
    refine booked_of_effect hb eff rfl ?_ ?_
    · rw [hcount, hpush]
      rfl
    · simp only [owedBumps]
      dsimp only at hset
      omega

theorem At.keyed (hc : s.Custody) {v : Place} (h : s.At id v) (hv : v ≠ .unminted) :
    ∃ i < s.sh.seq, callId i = id := h.minted hc hv

theorem seq_eq (hc : s.Custody) : s.sh.seq = s.placing.countP (·.pc.unpushed) + s.disp.entry.toList.length +
    s.attempts.countP (·.phase.stage.owns) + s.enders.countP (·.pc.finalizes) + (s.sh.queue.pending.length +
    (s.sh.log.countP Obs.isFinalized + s.sh.log.countP Obs.isAbandoned)) := by
  have hinj : Function.Injective callId := fun _ _ h => callId_injective h
  have hplacing : s.placing.countP (·.pc.unpushed) =
      ∑ i ∈ Finset.range s.sh.seq, s.placing.countP (Placing.owes (callId i)) := by
    refine Counting.countP_eq_sum (fun p : Placing => p.entry.callId) hinj fun p hp hun => ?_
    obtain ⟨i, hi⟩ := List.getElem?_of_mem hp
    exact At.keyed hc (.placing hi (by simp [Placing.owes, hun])) fun h => by cases h
  have hhand : s.disp.entry.toList.length =
      ∑ i ∈ Finset.range s.sh.seq, (s.disp.inHand (callId i)).toNat := by
    rw [← List.countP_true, Counting.countP_eq_sum PendingEntry.callId hinj (n := s.sh.seq)]
    · refine Finset.sum_congr rfl fun i _ => ?_
      rw [s.disp.inHand_eq]
      cases s.disp.entry with
      | none => rfl
      | some e => simp [Bool.toNat, Bool.cond_eq_ite]
    · intro e he _
      refine At.keyed hc (.hand ?_) fun h => by cases h
      simp [s.disp.inHand_eq, Option.mem_toList.mp he]
  have hatt : s.attempts.countP (·.phase.stage.owns) =
      ∑ i ∈ Finset.range s.sh.seq, s.attempts.countP (Attempt.owns (callId i)) := by
    refine Counting.countP_eq_sum Attempt.id hinj fun a ha hown => ?_
    obtain ⟨i, hi⟩ := List.getElem?_of_mem ha
    exact At.keyed hc (.attempt hi (by simp [Attempt.owns, hown])) fun h => by cases h
  have henders : s.enders.countP (·.pc.finalizes) =
      ∑ i ∈ Finset.range s.sh.seq, s.enders.countP (Ender.owns (callId i)) := by
    refine Counting.countP_eq_sum Ender.id hinj fun d hd hfin => ?_
    obtain ⟨i, hi⟩ := List.getElem?_of_mem hd
    exact At.keyed hc (.ender hi (by simp [Ender.owns, hfin])) fun h => by cases h
  have hqueue : s.sh.queue.pending.length =
      ∑ i ∈ Finset.range s.sh.seq, s.sh.queue.pending.countP fun e => e.callId == callId i := by
    rw [← List.countP_true, Counting.countP_eq_sum PendingEntry.callId hinj (n := s.sh.seq)]
    · simp
    · exact fun e he _ => At.keyed hc (.pending he rfl) fun h => by cases h
  have hlog : s.sh.log.countP Obs.isFinalized + s.sh.log.countP Obs.isAbandoned =
      ∑ i ∈ Finset.range s.sh.seq, s.sh.log.countP (Obs.settles (callId i)) := by
    rw [← Obs.countP_isSettled, Counting.countP_eq_sum Obs.settledId hinj (n := s.sh.seq)]
    · simp only [← Obs.settles_eq]
    · intro o ho hsettled
      refine At.keyed hc (.settled ho ?_) fun h => by cases h
      rw [Obs.settles_eq, hsettled, beq_self_eq_true]
      rfl
  have howners : ∑ i ∈ Finset.range s.sh.seq, s.owners (callId i) = s.sh.seq := by
    rw [Finset.sum_congr rfl fun i hi => hc.1 (callId i) ⟨i, Finset.mem_range.mp hi, rfl⟩]
    simp
  rw [hplacing, hhand, hatt, henders, hqueue, hlog, ← Finset.sum_add_distrib, ← Finset.sum_add_distrib,
    ← Finset.sum_add_distrib, ← Finset.sum_add_distrib, ← Finset.sum_add_distrib]
  exact howners.symm

theorem pushed_eq_sum (ht : s.Tallied) : s.sh.log.countP Obs.isPushed =
    ∑ i ∈ Finset.range s.sh.seq, s.pushes (callId i) := by
  have hinj : Function.Injective callId := fun _ _ h => callId_injective h
  rw [Counting.countP_eq_sum Obs.pushedId hinj (n := s.sh.seq)]
  · simp only [← Obs.pushes_eq]
    rfl
  · intro o ho hpush
    by_contra hno
    have hzero : s.pushes o.pushedId = 0 := (ht.pushed _ _ (.unminted hno)).mpr rfl
    have hat := List.countP_eq_zero.mp hzero o ho
    rw [Obs.pushes_eq, hpush, beq_self_eq_true] at hat
    exact hat rfl

theorem Quiet.pushed (hq : s.Quiet) (ht : s.Tallied) (hc : s.Custody) (hm : s.Minted id) : 1 ≤ s.pushes id := by
  obtain ⟨v, hv⟩ := exists_at hc id
  rw [Nat.one_le_iff_ne_zero, ne_eq, ht.pushed id v hv, Bool.not_eq_true]
  cases hv with
  | unminted hno => exact absurd hm hno
  | @placing i p hp ho =>
    have hun := Bool.and_elim_right ho
    rw [hq.placing p (List.mem_of_getElem? hp)] at hun
    cases hun
  | _ => rfl

theorem Quiet.owed (hq : s.Quiet) : s.placing.countP (·.pc.unpushed) = 0 ∧ s.owedPushes = 0 ∧
    s.enders.countP (·.pc.finalizes) = 0 ∧ s.owedBumps = 0 := by
  have hnone : ∀ {α : Type} {l : List α} {p : α → Bool}, (∀ a ∈ l, p a = false) → l.countP p = 0 :=
    fun h => List.countP_eq_zero.mpr fun a ha => by rw [h a ha]; exact Bool.false_ne_true
  have hpush : ∀ p ∈ s.placing, p.pc.owesPush = false := by
    intro p hp
    have hun := hq.placing p hp
    cases hpc : p.pc with
    | push =>
      rw [hpc] at hun
      cases hun
    | _ => rfl
  refine ⟨hnone hq.placing, ?_, hnone fun d hd => (hq.enders d hd).1, ?_⟩
  · rw [owedPushes, hnone hpush, hnone fun a ha => (hq.attempts a ha).1]
  · rw [owedBumps, hnone fun a ha => (hq.attempts a ha).2, hnone fun d hd => (hq.enders d hd).2]

/-- The calls have been pushed as often as there are calls exactly when none was pushed twice. -/
theorem Quiet.pushed_eq_seq_iff (hq : s.Quiet) (ht : s.Tallied) (hc : s.Custody) :
    s.sh.log.countP Obs.isPushed = s.sh.seq ↔ ∀ id, s.pushes id ≤ 1 := by
  have hpos : ∀ i ∈ Finset.range s.sh.seq, 1 ≤ s.pushes (callId i) := fun i hi =>
    hq.pushed ht hc ⟨i, Finset.mem_range.mp hi, rfl⟩
  have hseq : s.sh.seq = ∑ _i ∈ Finset.range s.sh.seq, 1 := by simp
  rw [pushed_eq_sum ht]
  conv_lhs => rw [eq_comm]; lhs; rw [hseq]
  rw [Finset.sum_eq_sum_iff_of_le hpos]
  constructor
  · intro h id
    by_cases hm : s.Minted id
    · obtain ⟨i, hi, rfl⟩ := hm
      exact (h i (Finset.mem_range.mpr hi)).ge
    · exact ((ht.pushed id _ (.unminted hm)).mpr rfl).le.trans (Nat.zero_le 1)
  · exact fun h i hi => le_antisymm (hpos i hi) (h (callId i))

/-- At rest, the calls placed are those in the queue, dispatched or settled as long as no
busy retry has pushed a call a second time. -/
theorem placed_accounted_iff {clock : ℕ} {tr : List Act} (h : Run (step cfg) Untorn (init cfg clock) tr s)
    (hq : s.Quiet) : s.sh.counters.placed = s.sh.queue.len + s.dispatched + s.sh.counters.settled ↔
      ∀ id, s.pushes id ≤ 1 := by
  obtain ⟨hs, ht, -⟩ := numbering_run h
  have hbooked : s.Aligned ∧ s.Booked := h.invariant (I := fun s => s.Aligned ∧ s.Booked)
    ⟨aligned_init clock, booked_init clock⟩ fun _ _ _ hb hok hstep =>
      ⟨aligned_step hb.1 (step_cases hstep), booked_step hb.2 hb.1 hok (step_cases hstep)⟩
  obtain ⟨hplacing, hpushes, henders, hbumps⟩ := hq.owed
  have hplaced := hbooked.2.placed
  have hsettled := hbooked.2.settled
  have hseq := seq_eq hs.custody
  rw [← hq.pushed_eq_seq_iff ht hs.custody, dispatched, MemQueue.len]
  omega

instance (s : Sys) (act : Act) : Decidable (Untorn s act) := inferInstanceAs (Decidable (∀ a ∈ _, _))

instance (s : Sys) : Decidable s.Quiet :=
  decidable_of_iff ((∀ p ∈ s.placing, p.pc.unpushed = false) ∧
      (∀ a ∈ s.attempts, a.phase.stage.owesPush = false ∧ a.phase.stage.owesBump = false) ∧
      ∀ d ∈ s.enders, d.pc.finalizes = false ∧ d.pc.owesBump = false)
    ⟨fun h => ⟨h.1, h.2.1, h.2.2⟩, fun h => ⟨h.placing, h.attempts, h.enders⟩⟩

/-- One call rings, one is in the queue, and one was cancelled there. -/
def threeCalls : List Act :=
  ringing ++ placeCall 1 1000 ++ placeCall 2 1000 ++ [.endCall (callId 2), .ender 0, .ender 0]

theorem placed_accounted_three :
    ∃ s, exec (guarded (step redialAtOnce) Untorn) (init redialAtOnce 0) threeCalls = some s ∧ s.Quiet ∧
      s.sh.counters.placed = 3 ∧ ∀ id, s.pushes id ≤ 1 := by
  have hrun : (exec (guarded (step redialAtOnce) Untorn) (init redialAtOnce 0) threeCalls).any
      (fun s => s.Quiet ∧ s.sh.counters.placed = 3 ∧
        s.sh.counters.placed = s.sh.queue.len + s.dispatched + s.sh.counters.settled) = true := by decide +kernel
  obtain ⟨s, hs, hbooks⟩ := (Option.any_eq_true _ _).mp hrun
  obtain ⟨hq, hthree, heq⟩ := of_decide_eq_true hbooks
  exact ⟨s, hs, hq, hthree, (placed_accounted_iff (run_of_guarded hs) hq).mp heq⟩

/-- The retry of a busy call is counted as another call. -/
theorem retry_counted_twice :
    ∃ s, exec (guarded (step redialAtOnce) Untorn) (init redialAtOnce 0) (ringing ++ busyRing) = some s ∧
      s.Quiet ∧ s.sh.counters.placed = 2 ∧ s.sh.queue.len + s.dispatched + s.sh.counters.settled = 1 := by
  have hrun : (exec (guarded (step redialAtOnce) Untorn) (init redialAtOnce 0) (ringing ++ busyRing)).any
      (fun s => s.Quiet ∧ s.sh.counters.placed = 2 ∧
        s.sh.queue.len + s.dispatched + s.sh.counters.settled = 1) = true := by decide +kernel
  obtain ⟨s, hs, hbooks⟩ := (Option.any_eq_true _ _).mp hrun
  exact ⟨s, hs, of_decide_eq_true hbooks⟩

end Sys

end Kutsu