import Kutsu.Proofs.Moves

/-! The lifecycle of a call while no task panics: the way of its record's state, the
mark it bears when it is ended, and its one count in the disposition counters. -/

namespace Kutsu

open Runs

/-- No task panics. -/
def Calm (_ : Sys) (act : Act) : Prop := ¬ act.panics

instance (s : Sys) (act : Act) : Decidable (Calm s act) := inferInstanceAs (Decidable (¬ _))

inductive CallState.Moves : CallState → CallState → Prop where
  | ring : Moves .queued .ringing
  | answer : Moves .ringing .inProgress
  | requeue : Moves .ringing .queued
  | finish {st : CallState} (h : st ≠ .ended) : Moves st .ended

/-- A record is placed, changed under its state, or moved on. An ended one stays as it is. -/
inductive RecordMove : Option CallRecord → Option CallRecord → Prop where
  | absent : RecordMove none none
  | placed {r : CallRecord} (h : r.state = .queued) : RecordMove none (some r)
  | kept {r r' : CallRecord} (h : r'.state = r.state) (hend : r.state = .ended → r' = r) :
      RecordMove (some r) (some r')
  | moved {r r' : CallRecord} (h : r.state.Moves r'.state) : RecordMove (some r) (some r')

/-- One step of a record; `finalize` may also evict it when it is ended. -/
def RecordStep (x y : Option CallRecord) : Prop := ∃ z, RecordMove x z ∧ (y = z ∨ Evicted z y)

/-- A disposition is there exactly when the record is ended. -/
def Marked (x : Option CallRecord) : Prop :=
  ∀ r, x = some r → (r.disposition.isSome ↔ r.state = .ended)

theorem RecordMove.refl (x : Option CallRecord) : RecordMove x x := by
  cases x with
  | none => exact .absent
  | some r => exact .kept rfl fun _ => rfl

theorem Marked.of_evicted {x y : Option CallRecord} (h : Evicted x y) : Marked y := by
  rintro r hr
  rw [h.2] at hr
  cases hr

theorem marked_mark (e : Ending) (x : Option CallRecord) : Marked (x.map e.mark) := by
  rintro r hr
  obtain ⟨r₀, -, rfl⟩ := Option.map_eq_some_iff.mp hr
  exact iff_of_true rfl rfl

section Life

variable {act : Act} {v w : Place} {x y : Option CallRecord}

theorem fits_some {st : Stage} (h : Place.fits (.attempt st) (x.map (·.state))) :
    ∃ r, x = some r ∧ st.fits r.state := by
  obtain ⟨cs, hx, hcs⟩ := h
  obtain ⟨r, rfl, rfl⟩ := Option.map_eq_some_iff.mp hx
  exact ⟨r, rfl, hcs⟩

theorem Stage.not_ended_of_fits {st : Stage} {cs : CallState} (h : st.fits cs) : cs ≠ .ended := by
  rintro rfl
  cases st <;> simp [fits] at h

theorem Place.settled_of_fits {v : Place} (h : v.fits (some .ended)) : v = .settled := by
  cases v with
  | settled => rfl
  | attempt st =>
    obtain ⟨cs, hcs, hfit⟩ := h
    exact absurd (Option.some.inj hcs).symm (Stage.not_ended_of_fits hfit)
  | placing pc => cases pc <;> cases h
  | _ => cases h

theorem Place.fits_none {v : Place} (h : v = .settled) : v.fits none := by
  subst h
  rintro cs hcs
  cases hcs

/-- Unless a panic settles the call, a step moves its record as it should, and the record
fits the call's new place as it did the old one. -/
theorem Life.move_fits (h : Life act v x w y) (hcalm : w = .settled → ¬ act.panics)
    (hv : v.fits (x.map (·.state))) :
    (∃ z, RecordMove x z ∧ (y = z ∨ Evicted z y) ∧ (Marked x → Marked z)) ∧
      w.fits (y.map (·.state)) := by
  have hsame : ∃ z, RecordMove x z ∧ (x = z ∨ Evicted z x) ∧ (Marked x → Marked z) :=
    ⟨x, .refl x, Or.inl rfl, fun h => h⟩
  cases h with
  | stay h =>
    rcases h with rfl | hev
    · exact ⟨hsame, hv⟩
    · obtain ⟨⟨r, rfl, hr⟩, rfl⟩ := id hev
      refine ⟨⟨some r, .refl _, Or.inr hev, fun h => h⟩, Place.fits_none ?_⟩
      rw [Option.map_some, hr] at hv
      exact Place.settled_of_fits hv
  | mint | count | push | pop | remove => exact ⟨hsame, hv⟩
  | register => exact ⟨hsame, _, hv, rfl⟩
  | insert hr =>
    obtain rfl := Option.map_eq_none_iff.mp hv
    refine ⟨⟨_, .placed hr.1, Or.inl rfl, fun _ r' hr' => ?_⟩, congrArg some hr.1⟩
    obtain rfl := Option.some.inj hr'
    simp [hr.1, hr.2]
  | quiet h =>
    obtain ⟨cs, hx, hcs⟩ := hv
    exact ⟨hsame, cs, hx, h cs hcs⟩
  | @setState p q x st h =>
    obtain ⟨r, rfl, hr⟩ := fits_some hv
    have hmoves : r.state.Moves st ∧ q.fits st ∧ st ≠ .ended := by
      rcases h with ⟨rfl, rfl, rfl⟩ | ⟨rfl, rfl, rfl⟩ | ⟨rfl, rfl, rfl⟩
      · exact ⟨(show r.state = .queued from hr) ▸ .ring, rfl, by decide⟩
      · exact ⟨(show r.state = .ringing from hr) ▸ .requeue, rfl, by decide⟩
      · exact ⟨(show r.state = .ringing from hr) ▸ .answer, rfl, by decide⟩
    refine ⟨⟨_, .moved hmoves.1, Or.inl rfl, fun hm r' hr' => ?_⟩, st, rfl, hmoves.2.1⟩
    obtain rfl := Option.some.inj hr'
    have hno := (hm r rfl).not.mpr (Stage.not_ended_of_fits hr)
    exact iff_of_false hno hmoves.2.2
  | @amend c x f h =>
    obtain ⟨r, rfl, hr⟩ := fits_some hv
    refine ⟨⟨_, .kept (h r).1 fun hend => ?_, Or.inl rfl, fun hm r' hr' => ?_⟩, _, rfl, ?_⟩
    · exact absurd hend (Stage.not_ended_of_fits hr)
    · obtain rfl := Option.some.inj hr'
      rw [(h r).1, (h r).2]
      exact hm r rfl
    · dsimp only
      rw [(h r).1]
      exact hr
  | repush =>
    obtain ⟨cs, hx, rfl⟩ := hv
    exact ⟨hsame, hx⟩
  | @finalize v x y e hv' hy =>
    have hx : ∃ r, x = some r ∧ r.state ≠ .ended := by
      rcases hv' with rfl | ⟨c, rfl⟩
      · obtain ⟨r, rfl, hr⟩ := Option.map_eq_some_iff.mp hv
        exact ⟨r, rfl, by rw [hr]; decide⟩
      · obtain ⟨r, rfl, hr⟩ := fits_some hv
        exact ⟨r, rfl, Stage.not_ended_of_fits hr⟩
    obtain ⟨r, rfl, hr⟩ := hx
    refine ⟨⟨_, .moved (.finish hr), hy, fun _ => marked_mark e (some r)⟩, fun cs hcs => ?_⟩
    rcases hy with rfl | hev
    · exact (Option.some.inj hcs).symm
    · rw [hev.2] at hcs
      cases hcs
  | abandon hp => exact absurd hp (hcalm rfl)

end Life

/-! The one count of every finalization. -/

def Obs.finalizes (id : CallId) : Obs → Bool
  | .finalized i _ => i == id
  | _ => false

def Obs.finalizesAs (id : CallId) (d : Disposition) : Obs → Bool
  | .finalized i d' => i == id && d' == d
  | _ => false

def Obs.bumps (id : CallId) (d : Disposition) : Obs → Bool
  | .bumped i d' => i == id && d' == d
  | _ => false

def Obs.bumpsAs (d : Disposition) : Obs → Bool
  | .bumped _ d' => d' == d
  | _ => false

def Effect.finalizesAs (id : CallId) (d : Disposition) : Effect → Bool
  | .finalize e => e.id == id && e.disposition == d
  | _ => false

def Effect.bumps (id : CallId) (d : Disposition) : Effect → Bool
  | .bump i d' => i == id && d' == d
  | _ => false

def Stage.toBump (d : Disposition) : Stage → Bool
  | .bumping d' => d' == d
  | _ => false

def EndPc.toBump (d : Disposition) : EndPc → Bool
  | .bump d' => d' == d
  | _ => false

def Attempt.toBump (id : CallId) (d : Disposition) (a : Attempt) : Bool :=
  a.id == id && a.phase.stage.toBump d

def Ender.toBump (id : CallId) (d : Disposition) (x : Ender) : Bool := x.id == id && x.pc.toBump d

def Sys.toBump (s : Sys) (id : CallId) (d : Disposition) : ℕ :=
  s.attempts.countP (Attempt.toBump id d) + s.enders.countP (Ender.toBump id d)

/-- Every finalization is counted, or is about to be. -/
def Sys.Counted (s : Sys) : Prop :=
  ∀ id d, s.sh.log.countP (Obs.bumps id d) + s.toBump id d = s.sh.log.countP (Obs.finalizesAs id d)

namespace Shared

theorem countP_logs (sh : Shared) (eff : Effect) (id : CallId) (d : Disposition) :
    (sh.logs eff).countP (Obs.bumps id d) = (eff.bumps id d).toNat ∧
      (sh.logs eff).countP (Obs.finalizesAs id d) = (eff.finalizesAs id d).toNat := by
  rw [countP_entries (fun _ => rfl) (fun _ _ => rfl) fun _ _ => rfl,
    countP_entries (fun _ => rfl) (fun _ _ => rfl) fun _ _ => rfl]
  cases eff with
  | finalize e =>
    refine ⟨rfl, ?_⟩
    rw [Effect.entries, List.countP_singleton]
    simp [Obs.finalizesAs, Effect.finalizesAs, Bool.toNat, Bool.cond_eq_ite]
  | bump i d' =>
    refine ⟨?_, rfl⟩
    rw [Effect.entries, List.countP_singleton]
    simp [Obs.bumps, Effect.bumps, Bool.toNat, Bool.cond_eq_ite]
  | _ => exact ⟨rfl, rfl⟩

theorem counters_apply (sh : Shared) (eff : Effect) (d : Disposition) :
    (sh.apply eff).counters.ofDisposition d + sh.log.countP (Obs.bumpsAs d) =
      sh.counters.ofDisposition d + (sh.apply eff).log.countP (Obs.bumpsAs d) := by
  rw [log_apply, List.countP_append, countP_entries (fun _ => rfl) (fun _ _ => rfl) fun _ _ => rfl]
  cases eff with
  | register | dropGuard | send =>
    rw [(rewired_apply sh rfl).counters]
    rfl
  | bump i d' =>
    simp only [apply, Effect.entries, Counters.ofDisposition_bump, List.countP_singleton, Obs.bumpsAs, beq_iff_eq]
    omega
  | countPlaced | addTotals | qualityAborted =>
    cases d <;> rfl
  | _ => rfl

end Shared

theorem Stage.Step.toBump {cfg : ServerConfig} {sh : Shared} {tok : Token} {a : Attempt}
    {input : RunInput} {p q : Stage} {eff : Effect} (h : Stage.Step cfg sh tok a input p q eff)
    (hi : input ≠ .panic) (id : CallId) (d : Disposition) :
    (a.id == id && p.toBump d).toNat + (eff.finalizesAs id d).toNat =
      (a.id == id && q.toBump d).toNat + (eff.bumps id d).toNat := by
  cases h with
  | start hq | preflight hq | reportWake hq => rcases hq with rfl | rfl <;> rfl
  | unreported hr hq => rcases hq with rfl | rfl <;> rfl
  | ringing hq => rcases hq with rfl | rfl | rfl <;> rfl
  | talking he => rcases he with rfl | ⟨q, rfl⟩ | ⟨op, rfl, -⟩ <;> rfl
  | persist he => rcases he with rfl | ⟨rec, rfl⟩ <;> rfl
  | bump d' hq =>
    rcases hq with rfl | rfl
    all_goals
      simp only [Stage.toBump, Effect.bumps, Effect.finalizesAs, Bool.and_false]
      exact Nat.add_comm _ _
  | finalize c =>
    simp only [Stage.toBump, Effect.bumps, Effect.finalizesAs, Bool.and_false]
    exact Nat.add_comm _ _
  | panic hi' hs => exact absurd hi' hi
  | _ => rfl

theorem Ender.next_toBump {x : Ender} {sh : Shared} {pc : EndPc} {eff : Effect}
    (h : x.next sh = some (pc, eff)) (id : CallId) (d : Disposition) :
    (x.toBump id d).toNat + (eff.finalizesAs id d).toNat =
      (Ender.toBump id d { x with pc }).toNat + (eff.bumps id d).toNat := by
  unfold next at h
  split at h
  all_goals rename_i hpc
  all_goals cases h
  all_goals simp [toBump, hpc, EndPc.toBump, Effect.finalizesAs, Effect.bumps, Closing.ending]

theorem Placing.no_toBump {p : Placing} {now : ℕ} {pc : PlacePc} {eff : Effect}
    (h : p.next now = some (pc, eff)) (id : CallId) (d : Disposition) :
    (eff.finalizesAs id d).toNat = (eff.bumps id d).toNat := by
  unfold next at h
  split at h
  all_goals cases h
  all_goals rfl

namespace Sys

variable {cfg : ServerConfig} {act : Act} {s s' : Sys}

theorem counted_of_effect (hc : s.Counted) (eff : Effect) (hsh : s'.sh = s.sh.apply eff)
    (h : ∀ id d, s.toBump id d + (eff.finalizesAs id d).toNat =
      s'.toBump id d + (eff.bumps id d).toNat) : s'.Counted := by
  intro id d
  obtain ⟨hb, hf⟩ := s.sh.countP_logs eff id d
  have := hc id d
  have := h id d
  rw [hsh, Shared.log_apply, List.countP_append, List.countP_append, hb, hf]
  omega

theorem counted_dispatch (hc : s.Counted) (hal : s.Aligned) (h : Dispatch cfg s s') :
    s'.Counted := by
  have hmove : ∀ (ph : Phase) (id : CallId) (d : Disposition) (st : Stage) {tok : Token},
      s.disp.hand = some (tok, st) → ph.stage.toBump d = false →
      (s.setPhase tok ph).countP (Attempt.toBump id d) = s.attempts.countP (Attempt.toBump id d) := by
    intro ph id d st tok hd hph
    obtain ⟨a, ha, rfl⟩ := hal.hand tok st hd
    have hno : a.phase.stage.toBump d = false := by
      rcases DispPc.hand_stage hd with h | h | h <;> rw [h] <;> rfl
    have hset := Counting.countP_set (p := Attempt.toBump id d) (b := { a with phase := ph }) ha
    rw [setPhase_eq ha]
    simpa only [Attempt.toBump, hph, hno, Bool.and_false, Bool.toNat_false, Nat.add_zero] using hset
  cases h with
  | look hl => exact counted_of_effect hc .idle rfl fun _ _ => rfl
  | pop hd hq => exact counted_of_effect hc (.pop _ _ _) rfl fun _ _ => rfl
  | register hd =>
    refine counted_of_effect hc (.register _) rfl fun id d => ?_
    simp only [toBump, Counting.countP_concat, Attempt.toBump, Phase.stage, Stage.toBump,
      Bool.and_false, Bool.toNat_false]
    rfl
  | claim hd =>
    refine counted_of_effect hc .claimSlot rfl fun id d => ?_
    simp only [toBump, hmove .claimed id d .registered (by rw [hd]; rfl) rfl]
    rfl
  | mark hd => exact counted_of_effect hc (.markProbe _ _) rfl fun _ _ => rfl
  | setRinging hd =>
    refine counted_of_effect hc (.store _) rfl fun id d => ?_
    simp only [toBump, hmove .rung id d .claimed (by rw [hd]; rfl) rfl]
    rfl
  | spawn hd =>
    refine counted_of_effect hc .idle rfl fun id d => ?_
    simp only [toBump, hmove .start id d .rung (by rw [hd]; rfl) rfl]
    rfl
  | wake hd hp => exact counted_of_effect hc .consume rfl fun _ _ => rfl

theorem counted_step (hc : s.Counted) (hal : s.Aligned) (hcalm : ¬ act.panics)
    (h : Step cfg s act s') : s'.Counted := by
  cases h with
  | tick now => exact hc
  | place => exact counted_of_effect hc .mint rfl fun _ _ => rfl
  | @placing i p pc eff hp hn hl =>
    refine counted_of_effect hc eff rfl fun id d => ?_
    rw [Placing.no_toBump hn id d]
    rfl
  | dispatch h => exact counted_dispatch hc hal h
  | timer hd ht => exact hc
  | @run tok input a phase eff ha hn hl =>
    refine counted_of_effect hc eff rfl fun id d => ?_
    have hi : input ≠ .panic := by
      rintro rfl
      exact hcalm rfl
    have hset := Counting.countP_set (p := Attempt.toBump id d) (b := { a with phase }) ha
    have hstep := (Attempt.next_step hn).toBump hi id d
    simp only [toBump]
    simp only [Attempt.toBump, Attempt.id] at hset hstep
    omega
  | endCall i hl =>
    refine counted_of_effect hc (s.sh.endCall i).2 rfl fun id d => ?_
    rcases s.sh.endCall_cases i with ⟨e, rest, -, h⟩ | ⟨tok, -, -, h⟩ | ⟨-, -, h⟩
    all_goals
      simp only [h, toBump, Counting.countP_concat, Ender.toBump, EndPc.toBump, Bool.and_false,
        Bool.toNat_false, Effect.finalizesAs, Effect.bumps, Nat.add_zero]
  | @ender i x pc eff hd hn =>
    refine counted_of_effect hc eff rfl fun id d => ?_
    have hset := Counting.countP_set (p := Ender.toBump id d) (b := { x with pc }) hd
    have hstep := Ender.next_toBump hn id d
    simp only [toBump]
    omega

theorem counters_step (hc : ∀ d, s.sh.counters.ofDisposition d = s.sh.log.countP (Obs.bumpsAs d))
    (h : Step cfg s act s') (d : Disposition) :
    s'.sh.counters.ofDisposition d = s'.sh.log.countP (Obs.bumpsAs d) := by
  have := hc d
  rcases h.shared with ⟨eff, hsh⟩ | ⟨now, hsh⟩
  · have := s.sh.counters_apply eff d
    rw [hsh]
    omega
  · rw [hsh]
    exact hc d

structure Orderly (s : Sys) : Prop where
  custody : s.Custody
  aligned : s.Aligned
  fits : ∀ id v, s.At id v → v.fits ((s.sh.store.get id).map (·.state))
  marked : ∀ id, Marked (s.sh.store.get id)
  counted : s.Counted
  counters : ∀ d, s.sh.counters.ofDisposition d = s.sh.log.countP (Obs.bumpsAs d)

theorem orderly_init (clock : ℕ) : (init cfg clock).Orderly where
  custody := custody_init clock
  aligned := aligned_init clock
  fits id v hv := by
    have hget : (init cfg clock).sh.store.get id = none := CallStore.get_withHistoryCap _ _
    obtain rfl : v = .unminted :=
      at_unique (custody_init clock) hv (.unminted fun ⟨n, hn, _⟩ => absurd hn (Nat.not_lt_zero n))
    rw [hget]
    rfl
  marked id r hr := by
    have hget : (init cfg clock).sh.store.get id = none := CallStore.get_withHistoryCap _ _
    rw [hget] at hr
    cases hr
  counted _ _ := rfl
  counters d := by cases d <;> rfl

theorem orderly_step (ho : s.Orderly) (hcalm : ¬ act.panics) (h : Step cfg s act s') :
    s'.Orderly := by
  have hc' := custody_step ho.custody ho.aligned h
  have hlife : ∀ id w, s'.At id w → w.fits ((s'.sh.store.get id).map (·.state)) ∧
      Marked (s'.sh.store.get id) := by
    intro id w hw
    obtain ⟨v, hv⟩ := exists_at ho.custody id
    obtain ⟨⟨z, -, hz, hmark⟩, hfits⟩ :=
      (life_step ho.custody ho.aligned h hv hw).move_fits (fun _ => hcalm) (ho.fits id v hv)
    refine ⟨hfits, ?_⟩
    rcases hz with hz | hev
    · rw [hz]; exact hmark (ho.marked id)
    · exact .of_evicted hev
  refine ⟨hc', aligned_step ho.aligned h, fun id w hw => (hlife id w hw).1, fun id => ?_,
    counted_step ho.counted ho.aligned hcalm h, counters_step ho.counters h⟩
  obtain ⟨w, hw⟩ := exists_at hc' id
  exact (hlife id w hw).2

theorem orderly_run {clock : ℕ} {tr : List Act} (h : Run (step cfg) Calm (init cfg clock) tr s) :
    s.Orderly :=
  h.invariant (orderly_init clock) fun _ _ _ ho hcalm hs => orderly_step ho hcalm (step_cases hs)

theorem Orderly.recordStep (ho : s.Orderly) (hcalm : ¬ act.panics) (h : Step cfg s act s')
    (id : CallId) : RecordStep (s.sh.store.get id) (s'.sh.store.get id) := by
  obtain ⟨v, hv⟩ := exists_at ho.custody id
  obtain ⟨w, hw⟩ := exists_at (custody_step ho.custody ho.aligned h) id
  obtain ⟨⟨z, hmove, hz, -⟩, -⟩ :=
    (life_step ho.custody ho.aligned h hv hw).move_fits (fun _ => hcalm) (ho.fits id v hv)
  exact ⟨z, hmove, hz⟩

theorem finalized_le_one (hc : s.Custody) (id : CallId) : s.sh.log.countP (Obs.finalizes id) ≤ 1 := by
  have hle := owners_le_one hc id
  have hmono : s.sh.log.countP (Obs.finalizes id) ≤ s.sh.log.countP (Obs.settles id) := by
    refine List.countP_mono_left fun o _ ho => ?_
    cases o with
    | finalized i d => exact ho
    | _ => cases ho
  unfold owners Shared.holds at hle
  omega

/-- What holds of a call at every point of a run, and of every step from there. -/
structure Lifecycle (cfg : ServerConfig) (s : Sys) (id : CallId) : Prop where
  marked : Marked (s.sh.store.get id)
  finalized_once : s.sh.log.countP (Obs.finalizes id) ≤ 1
  counted : ∀ d, s.sh.log.countP (Obs.bumps id d) + s.toBump id d =
    s.sh.log.countP (Obs.finalizesAs id d)
  counters : ∀ d, s.sh.counters.ofDisposition d = s.sh.log.countP (Obs.bumpsAs d)
  moves : ∀ act s', Calm s act → s.step cfg act = some s' →
    RecordStep (s.sh.store.get id) (s'.sh.store.get id)

/-- Every call of every run without a panic goes its way. -/
theorem lifecycle {clock : ℕ} {tr : List Act} (h : Run (step cfg) Calm (init cfg clock) tr s)
    (id : CallId) : s.Lifecycle cfg id :=
  have ho := orderly_run h
  ⟨ho.marked id, finalized_le_one ho.custody id, ho.counted id, ho.counters,
    fun _ _ hcalm hs => ho.recordStep hcalm (step_cases hs) id⟩

/-- A call that is placed, dispatched, dialled and not answered. -/
def unanswered : List Act :=
  [.place "100" ⟨.null, none, none⟩ 0 1 none, .placing 0, .placing 0, .placing 0, .placing 0] ++
    List.replicate 9 .dispatch ++
    [.run 0 .go, .run 0 .go, .run 0 (.invited (.ok ())), .run 0 (.warmed (.ok ())),
      .run 0 (.ring (.terminated (.failed .noAnswer "408"))), .run 0 .go, .run 0 .go]

def noPreflight : ServerConfig := { ServerConfig.default with netCheck := { enabled := false } }

theorem lifecycle_unanswered :
    ∃ s, exec (guarded (step noPreflight) Calm) (init noPreflight 0) unanswered = some s ∧
      s.sh.log.countP (Obs.bumps (callId 0) .noAnswer) = 1 ∧ s.Lifecycle noPreflight (callId 0) := by
  have hcount : (exec (guarded (step noPreflight) Calm) (init noPreflight 0) unanswered).any
      (fun s => s.sh.log.countP (Obs.bumps (callId 0) .noAnswer) = 1) := by decide
  obtain ⟨s, hs, hbump⟩ := (Option.any_eq_true _ _).mp hcount
  exact ⟨s, hs, of_decide_eq_true hbump, lifecycle (run_of_guarded hs) (callId 0)⟩

end Sys

end Kutsu
