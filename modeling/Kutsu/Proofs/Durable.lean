import Kutsu.Proofs.Retries

/-! The durable history. A record is written at the end of `run_call` alone, where a call
that was talked on is finalized, and only if the store still holds it there. -/

namespace Kutsu

open Runs

def Rest.isLate : Rest → Bool
  | .early => false
  | .late _ => true

def Phase.writing : Phase → Bool
  | .bumping _ rest => rest.isLate
  | .countAbort | .persist => true
  | _ => false

/-- The stages between which a call is finalized and its record written. -/
def Stage.closing : Stage → Bool
  | .finalizing _ | .bumping _ | .settled => true
  | _ => false

def Effect.finalizes (id : CallId) : Effect → Bool
  | .finalize e => e.id == id
  | _ => false

def Effect.persists : Effect → Option CallRecord
  | .persist rec => some rec
  | _ => none

/-- The step does not leave the call without its write: it does not finalize it anywhere
but at the end of a talk, finds the record to write, and does not panic in between. -/
def Attempt.archives (sh : Shared) (a : Attempt) (input : RunInput) : Bool :=
  match a.phase, input with
  | .finalizing _ rest, .go => rest.isLate
  | .persist, .go => (sh.store.get a.id).isSome
  | phase, .panic => !phase.writing
  | _, _ => true

theorem Phase.not_writing {ph : Phase} (h : ph.stage.closing = false) : ph.writing = false := by
  cases ph with
  | bumping | countAbort | persist => cases h
  | _ => rfl

theorem Phase.not_writing_finalizing {ph : Phase} {c : Bool} (h : ph.stage = .finalizing c) :
    ph.writing = false := by
  cases ph with
  | bumping | countAbort | persist => cases h
  | _ => rfl

theorem Stage.Step.apart {cfg : ServerConfig} {sh : Shared} {tok : Token} {a : Attempt} {input : RunInput}
    {p q : Stage} {eff : Effect} (h : Stage.Step cfg sh tok a input p q eff) (hp : p.closing = false) :
    (q.closing = false ∨ ∃ c, q = .finalizing c) ∧ (∀ id, eff.finalizes id = false) ∧ eff.persists = none := by
  cases h with
  | finalize | bump | countAbort | persist => cases hp
  | start hq | preflight hq => rcases hq with rfl | rfl <;> exact ⟨Or.inl rfl, fun _ => rfl, rfl⟩
  | cancelled => exact ⟨Or.inr ⟨true, rfl⟩, fun _ => rfl, rfl⟩
  | unreported hr hq =>
    rcases hq with rfl | rfl
    · exact ⟨Or.inl rfl, fun _ => rfl, rfl⟩
    · exact ⟨Or.inr ⟨false, rfl⟩, fun _ => rfl, rfl⟩
  | reportWake hq =>
    rcases hq with rfl | rfl
    · exact ⟨Or.inl rfl, fun _ => rfl, rfl⟩
    · exact ⟨Or.inr ⟨false, rfl⟩, fun _ => rfl, rfl⟩
  | ringing hq =>
    rcases hq with rfl | rfl | rfl
    · exact ⟨Or.inl rfl, fun _ => rfl, rfl⟩
    · exact ⟨Or.inl rfl, fun _ => rfl, rfl⟩
    · exact ⟨Or.inr ⟨false, rfl⟩, fun _ => rfl, rfl⟩
  | talking he => rcases he with rfl | ⟨q, rfl⟩ | ⟨op, rfl, -⟩ <;> exact ⟨Or.inl rfl, fun _ => rfl, rfl⟩
  | resolve => exact ⟨Or.inr ⟨_, rfl⟩, fun _ => rfl, rfl⟩
  | panic hi hs =>
    refine ⟨Or.inl rfl, ?_⟩
    split_ifs <;> exact ⟨fun _ => rfl, rfl⟩
  | _ => exact ⟨Or.inl rfl, fun _ => rfl, rfl⟩

inductive Attempt.WriteStep (sh : Shared) (a : Attempt) (input : RunInput) (ph : Phase) (eff : Effect) : Prop where
  | still (hph : ph.writing = a.phase.writing) (hf : ∀ id, eff.finalizes id = false) (hw : eff.persists = none)
      (hm : a.archives sh input = true)
  | finalize (hp : a.phase.writing = false) (hm : a.archives sh input = ph.writing)
      (hf : ∀ id, eff.finalizes id = (a.id == id)) (hw : eff.persists = none)
  | write (rec : CallRecord) (hp : a.phase.writing = true) (hq : ph.writing = false)
      (hf : ∀ id, eff.finalizes id = false) (hw : eff.persists = some rec)
      (hrec : sh.store.get a.id = some rec) (hm : a.archives sh input = true)
  | lost (hp : a.phase.writing = true) (hq : ph.writing = false) (hf : ∀ id, eff.finalizes id = false)
      (hw : eff.persists = none) (hm : a.archives sh input = false)

theorem Rest.leave_writing (rest : Rest) (d : Disposition) : (rest.leave d).writing = rest.isLate := by
  cases rest with
  | early => rfl
  | late hadAbort =>
    rw [leave]
    split_ifs <;> rfl

namespace Attempt

variable {cfg : ServerConfig} {sh : Shared} {tok : Token} {a : Attempt} {input : RunInput} {ph : Phase}
  {eff : Effect}

theorem panic_next (h : a.next cfg sh tok .panic = some (ph, eff)) :
    ph = .guardDrop .panicked ∧ (∀ id, eff.finalizes id = false) ∧ eff.persists = none := by
  unfold next at h
  split at h
  all_goals try contradiction
  split_ifs at h with hs
  all_goals
    obtain ⟨rfl, rfl⟩ := Prod.mk.inj (Option.some.inj h)
    exact ⟨rfl, fun _ => rfl, rfl⟩

theorem WriteStep.of_panic (h : a.next cfg sh tok .panic = some (ph, eff)) :
    a.WriteStep sh .panic ph eff := by
  obtain ⟨rfl, hf, hw⟩ := panic_next h
  have harch : a.archives sh .panic = !a.phase.writing := by
    unfold archives
    split <;> simp_all
  cases hp : a.phase.writing with
  | false => exact .still hp.symm hf hw (by rw [harch, hp]; rfl)
  | true => exact .lost hp rfl hf hw (by rw [harch, hp]; rfl)

theorem next_write (hdir : cfg.transcriptDir.isSome = true) (h : a.next cfg sh tok input = some (ph, eff)) :
    a.WriteStep sh input ph eff := by
  by_cases hpanic : input = .panic
  · subst hpanic
    exact .of_panic h
  have hstep := next_step h
  have hgo := fun hp => go_of_next h hp hpanic
  cases hph : a.phase with
  | finalizing c rest =>
    obtain rfl := hgo (by rw [hph]; rfl)
    unfold next at h
    rw [hph] at h
    obtain ⟨rfl, rfl⟩ := Prod.mk.inj (Option.some.inj h)
    exact .finalize (by rw [hph]; rfl) (by unfold archives; rw [hph]; rfl) (fun _ => rfl) rfl
  | bumping d rest =>
    obtain rfl := hgo (by rw [hph]; rfl)
    unfold next at h
    rw [hph] at h
    obtain ⟨rfl, rfl⟩ := Prod.mk.inj (Option.some.inj h)
    exact .still (by rw [hph, Rest.leave_writing]; rfl) (fun _ => rfl) rfl (by unfold archives; rw [hph])
  | countAbort =>
    obtain rfl := hgo (by rw [hph]; rfl)
    unfold next at h
    rw [hph] at h
    obtain ⟨rfl, rfl⟩ := Prod.mk.inj (Option.some.inj h)
    exact .still (by rw [hph]; rfl) (fun _ => rfl) rfl (by unfold archives; rw [hph])
  | persist =>
    obtain rfl := hgo (by rw [hph]; rfl)
    unfold next at h
    rw [hph] at h
    obtain ⟨rfl, rfl⟩ := Prod.mk.inj (Option.some.inj h)
    obtain ⟨dir, hdir⟩ := Option.isSome_iff_exists.mp hdir
    cases hrec : sh.store.get a.id with
    | none =>
      rw [hdir]
      exact .lost (by rw [hph]; rfl) rfl (fun _ => rfl) rfl (by unfold archives; rw [hph]; simp [hrec])
    | some rec =>
      rw [hdir]
      exact .write rec (by rw [hph]; rfl) rfl (fun _ => rfl) rfl hrec (by unfold archives; rw [hph]; simp [hrec])
  | _ =>
    have hp : a.phase.stage.closing = false := by rw [hph]; rfl
    obtain ⟨hq, hf, hw⟩ := hstep.apart hp
    have hnow : ph.writing = false := by
      rcases hq with hq | ⟨c, hq⟩
      · exact Phase.not_writing hq
      · exact Phase.not_writing_finalizing hq
    refine .still (by rw [hnow, Phase.not_writing hp]) hf hw ?_
    unfold archives
    rw [hph]
    cases input with
    | panic => exact absurd rfl hpanic
    | _ => rfl

end Attempt

def Obs.persists (id : CallId) : Obs → Bool
  | .persisted rec => rec.callId == id
  | _ => false

def Effect.writes (id : CallId) (eff : Effect) : Bool := eff.persists.any fun rec => rec.callId == id

namespace Shared

theorem countP_finalizes (sh : Shared) (eff : Effect) (id : CallId) :
    (sh.logs eff).countP (Obs.finalizes id) = (eff.finalizes id).toNat ∧
      (sh.logs eff).countP (Obs.persists id) = (eff.writes id).toNat := by
  rw [countP_entries (fun _ => rfl) (fun _ _ => rfl) fun _ _ => rfl,
    countP_entries (fun _ => rfl) (fun _ _ => rfl) fun _ _ => rfl]
  cases eff with
  | finalize e =>
    refine ⟨?_, rfl⟩
    rw [Effect.entries, List.countP_singleton]
    simp [Obs.finalizes, Effect.finalizes, Bool.toNat, Bool.cond_eq_ite]
  | persist rec =>
    refine ⟨rfl, ?_⟩
    rw [Effect.entries, List.countP_singleton]
    simp [Obs.persists, Effect.writes, Effect.persists, Bool.toNat, Bool.cond_eq_ite]
  | _ => exact ⟨rfl, rfl⟩

theorem persists_of_mem {sh : Shared} {eff : Effect} {rec : CallRecord} (h : .persisted rec ∈ sh.logs eff) :
    eff.persists = some rec := by
  have h := (mem_logs rfl).mp h
  cases eff with
  | persist rec' => rw [Obs.persisted.inj (List.mem_singleton.mp h)]; rfl
  | _ => simp [Effect.entries] at h

end Shared

def Attempt.writes (id : CallId) (a : Attempt) : Bool := a.id == id && a.phase.writing

namespace Sys

variable {cfg : ServerConfig} {act : Act} {s s' : Sys} {id : CallId}

def finalized (s : Sys) (id : CallId) : ℕ := s.sh.log.countP (Obs.finalizes id)

def persisted (s : Sys) (id : CallId) : ℕ := s.sh.log.countP (Obs.persists id)

def writers (s : Sys) (id : CallId) : ℕ := s.attempts.countP (Attempt.writes id)

/-- The step does not leave the call without its write. One that was cancelled in the
queue is finalized by `end_call`, which does not write. -/
def Writes (id : CallId) (s : Sys) : Act → Prop
  | .run tok input => ∀ a, s.attempts[tok]? = some a → a.id = id → a.archives s.sh input = true
  | .ender i => ∀ d, s.enders[i]? = some d → d.id = id → d.pc.finalizes = false
  | _ => True

/-- The store holds every record under its own id. -/
def Keyed (s : Sys) : Prop := ∀ id r, s.sh.store.get id = some r → r.callId = id

theorem keyed_step (hk : s.Keyed) (h : Step cfg s act s') : s'.Keyed := by
  intro id r hr
  rcases h.record hr with ⟨r₀, hr₀, hcont⟩ | ⟨i, p, -, -, -, hid, rfl⟩
  · rw [hcont.callId]
    exact hk id r₀ hr₀
  · exact hid

/-- How a step bears on the writing of a call's record. -/
inductive WriteStep (s s' : Sys) (id : CallId) (act : Act) : Prop where
  | kept (hok : Writes id s act) (heq : s'.writers id + s'.persisted id + s.finalized id =
      s.writers id + s.persisted id + s'.finalized id)
  | unwritten (hno : ¬ Writes id s act) (hw : s'.writers id = s.writers id)
      (hp : s'.persisted id = s.persisted id) (hf : s'.finalized id = s.finalized id + 1)
  | lost (hno : ¬ Writes id s act) (hw : s'.writers id + 1 = s.writers id)
      (hp : s'.persisted id = s.persisted id) (hf : s'.finalized id = s.finalized id)

theorem written_apply {s s' : Sys} (eff : Effect) (hsh : s'.sh = s.sh.apply eff) (id : CallId) :
    s'.finalized id = s.finalized id + (eff.finalizes id).toNat ∧
      s'.persisted id = s.persisted id + (eff.writes id).toNat := by
  obtain ⟨hf, hw⟩ := s.sh.countP_finalizes eff id
  simp only [finalized, persisted, hsh, Shared.log_apply, List.countP_append, hf, hw, and_self]

theorem WriteStep.of_effect (eff : Effect) (hsh : s'.sh = s.sh.apply eff) (hok : Writes id s act)
    (hw : s'.writers id = s.writers id) (hf : eff.finalizes id = false) (hp : eff.writes id = false) :
    WriteStep s s' id act := by
  obtain ⟨hfin, hper⟩ := written_apply eff hsh id
  rw [hf] at hfin
  rw [hp] at hper
  exact .kept hok (by rw [hfin, hper, hw]; rfl)

theorem WriteStep.of_unwritten (eff : Effect) (hsh : s'.sh = s.sh.apply eff) (hno : ¬ Writes id s act)
    (hw : s'.writers id = s.writers id) (hf : eff.finalizes id = true) (hp : eff.writes id = false) :
    WriteStep s s' id act := by
  obtain ⟨hfin, hper⟩ := written_apply eff hsh id
  rw [hf] at hfin
  rw [hp] at hper
  exact .unwritten hno hw hper hfin

theorem writers_dispatch (hal : s.Aligned) (h : Dispatch cfg s s') (id : CallId) :
    s'.writers id = s.writers id := by
  have hmove : ∀ (ph : Phase) (st : Stage) {tok : Token}, s.disp.hand = some (tok, st) →
      ph.stage.closing = false → (s.setPhase tok ph).countP (Attempt.writes id) = s.writers id := by
    intro ph st tok hd hph
    obtain ⟨a, ha, rfl⟩ := hal.hand tok st hd
    have hno : a.phase.writing = false := by
      refine Phase.not_writing ?_
      rcases DispPc.hand_stage hd with h | h | h <;> rw [h] <;> rfl
    have hset := Counting.countP_set (p := Attempt.writes id) (b := { a with phase := ph }) ha
    rw [setPhase_eq ha, writers]
    simpa only [Attempt.writes, Phase.not_writing hph, hno, Bool.and_false, Bool.toNat_false, Nat.add_zero]
      using hset
  cases h with
  | register hd =>
    simp only [writers, Counting.countP_concat, Attempt.writes, Phase.writing, Bool.and_false, Bool.toNat_false,
      Nat.add_zero]
  | claim hd => exact hmove .claimed .registered (by rw [hd]; rfl) rfl
  | setRinging hd => exact hmove .rung .claimed (by rw [hd]; rfl) rfl
  | spawn hd => exact hmove .start .rung (by rw [hd]; rfl) rfl
  | _ => rfl

theorem write_run (hdir : cfg.transcriptDir.isSome = true) (hk : s.Keyed) {tok : Token} {input : RunInput}
    {a : Attempt} {phase : Phase} {eff : Effect} (ha : s.attempts[tok]? = some a)
    (hn : a.next cfg s.sh tok input = some (phase, eff))
    (hs' : s' = { s with sh := s.sh.apply eff, attempts := s.attempts.set tok { a with phase } }) :
    WriteStep s s' id (.run tok input) := by
  have hsh : s'.sh = s.sh.apply eff := by rw [hs']
  obtain ⟨hfin, hper⟩ := written_apply eff hsh id
  have hset : s'.writers id + (Attempt.writes id a).toNat =
      s.writers id + (Attempt.writes id { a with phase }).toNat := by
    rw [hs']
    exact Counting.countP_set ha
  have hstep := Attempt.next_write hdir hn
  by_cases hid : a.id = id
  · have hiff : Writes id s (.run tok input) ↔ a.archives s.sh input = true := by
      refine ⟨fun h => h a ha hid, fun h b hb _ => ?_⟩
      rwa [← Option.some.inj (ha.symm.trans hb)]
    have hown : Attempt.writes id a = a.phase.writing := by simp [Attempt.writes, hid]
    have hown' : Attempt.writes id { a with phase } = phase.writing := by
      simp only [Attempt.writes]
      exact Bool.and_eq_right_iff_imp.mpr fun _ => beq_iff_eq.mpr hid
    rw [hown, hown'] at hset
    cases hstep with
    | still hph hf hw hm =>
      rw [hf] at hfin
      rw [Effect.writes, hw, Option.any_none] at hper
      rw [hph] at hset
      have hsame : s'.writers id = s.writers id := Nat.add_right_cancel hset
      exact .kept (hiff.mpr hm) (by rw [hfin, hper, hsame]; rfl)
    | finalize hp hm hf hw =>
      rw [hf, beq_iff_eq.mpr hid, Bool.toNat_true] at hfin
      rw [Effect.writes, hw, Option.any_none] at hper
      cases hq : phase.writing with
      | true =>
        rw [hp, hq, Bool.toNat_true, Bool.toNat_false] at hset
        exact .kept (hiff.mpr (hm.trans hq)) (by rw [Bool.toNat_false] at hper; omega)
      | false =>
        rw [hp, hq] at hset
        exact .unwritten (by rw [hiff, hm, hq]; exact Bool.false_ne_true) hset hper hfin
    | write rec hp hq hf hw hrec hm =>
      have hkey : rec.callId = id := (hk _ _ hrec).trans hid
      rw [hf] at hfin
      rw [Effect.writes, hw, Option.any_some, beq_iff_eq.mpr hkey, Bool.toNat_true] at hper
      rw [hp, hq, Bool.toNat_true, Bool.toNat_false] at hset
      exact .kept (hiff.mpr hm) (by rw [Bool.toNat_false] at hfin; omega)
    | lost hp hq hf hw hm =>
      rw [hf] at hfin
      rw [Effect.writes, hw, Option.any_none] at hper
      rw [hp, hq, Bool.toNat_true, Bool.toNat_false] at hset
      exact .lost (by rw [hiff, hm]; exact Bool.false_ne_true) hset hper hfin
  · have hok : Writes id s (.run tok input) := by
      intro b hb hb'
      rw [← Option.some.inj (ha.symm.trans hb)] at hb'
      exact absurd hb' hid
    have hno : ∀ ph, Attempt.writes id { a with phase := ph } = false := by
      intro ph
      simp only [Attempt.writes, Bool.and_eq_false_imp, beq_iff_eq]
      exact fun h => absurd h hid
    have hsame : s'.writers id = s.writers id := by
      have hold : Attempt.writes id a = false := hno a.phase
      rw [hold, hno phase] at hset
      exact hset
    refine .of_effect eff hsh hok hsame ?_ ?_
    · cases hstep with
      | finalize hp hm hf hw =>
        rw [hf]
        exact beq_eq_false_iff_ne.mpr hid
      | still hph hf | write rec hp hq hf | lost hp hq hf => exact hf id
    · cases hstep with
      | write rec hp hq hf hw hrec hm =>
        rw [Effect.writes, hw, Option.any_some, hk _ _ hrec]
        exact beq_eq_false_iff_ne.mpr hid
      | still hph hf hw | finalize hp hm hf hw | lost hp hq hf hw => rw [Effect.writes, hw, Option.any_none]

theorem write_step (hdir : cfg.transcriptDir.isSome = true) (hk : s.Keyed) (hal : s.Aligned)
    (h : Step cfg s act s') (id : CallId) : WriteStep s s' id act := by
  cases h with
  | tick now => exact .kept trivial rfl
  | place => exact .of_effect .mint rfl trivial rfl rfl rfl
  | @placing i p pc eff hp hn hl =>
    unfold Placing.next at hn
    split at hn
    all_goals cases hn
    · exact .of_effect (.store _) rfl trivial rfl rfl rfl
    · exact .of_effect .countPlaced rfl trivial rfl rfl rfl
    · exact .of_effect (.push _) rfl trivial rfl rfl rfl
    · exact .of_effect .notify rfl trivial rfl rfl rfl
  | dispatch h =>
    have hw := writers_dispatch hal h id
    cases h with
    | look | spawn => exact .of_effect .idle rfl trivial hw rfl rfl
    | pop => exact .of_effect (.pop _ _ _) rfl trivial hw rfl rfl
    | register => exact .of_effect (.register _) rfl trivial hw rfl rfl
    | claim => exact .of_effect .claimSlot rfl trivial hw rfl rfl
    | mark => exact .of_effect (.markProbe _ _) rfl trivial hw rfl rfl
    | setRinging => exact .of_effect (.store _) rfl trivial hw rfl rfl
    | wake => exact .of_effect .consume rfl trivial hw rfl rfl
  | timer => exact .of_effect .idle rfl trivial rfl rfl rfl
  | run ha hn hl => exact write_run hdir hk ha hn rfl
  | endCall i hl =>
    rcases s.sh.endCall_cases i with ⟨e, rest, -, h⟩ | ⟨tok, -, -, h⟩ | ⟨-, -, h⟩
    · exact .of_effect (.remove e rest) (by rw [h]) trivial rfl rfl rfl
    · exact .of_effect (.takeSender tok i) (by rw [h]) trivial rfl rfl rfl
    · exact .of_effect (.noSender i) (by rw [h]) trivial rfl rfl rfl
  | @ender i d pc eff hd hn =>
    have hiff : Writes id s (.ender i) ↔ (d.id = id → d.pc.finalizes = false) := by
      refine ⟨fun h => h d hd, fun h b hb => ?_⟩
      rwa [← Option.some.inj (hd.symm.trans hb)]
    unfold Ender.next at hn
    split at hn <;> rename_i hpc
    all_goals cases hn
    · by_cases hid : d.id = id
      · refine .of_unwritten (.finalize (queuedClosing.ending d.id s.sh.clock)) rfl ?_ rfl (beq_iff_eq.mpr hid) rfl
        rw [hiff, hpc]
        exact fun h => absurd (h hid) (by decide)
      · refine .of_effect (.finalize _) rfl (hiff.mpr fun h => absurd h hid) rfl ?_ rfl
        exact beq_eq_false_iff_ne.mpr hid
    · exact .of_effect (.bump _ _) rfl (hiff.mpr fun _ => by rw [hpc]; rfl) rfl rfl rfl
    · exact .of_effect (.send _ _) rfl (hiff.mpr fun _ => by rw [hpc]; rfl) rfl rfl rfl

/-- The record of a finalized call, while it is held, says how the call was finalized. -/
def Finished (s : Sys) : Prop := ∀ id d, .finalized id d ∈ s.sh.log →
  ∀ r, s.sh.store.get id = some r → r.state = .ended ∧ r.disposition = some d

theorem finished_step (hf : s.Finished) (hs : s.Sound) (h : Step cfg s act s') : s'.Finished := by
  intro id d hmem r hr
  have hat' : s'.At id .settled := .settled hmem (beq_self_eq_true id)
  rw [h.log_eq, List.mem_append] at hmem
  rcases hmem with hold | hnew
  · have hat : s.At id .settled := .settled hold (beq_self_eq_true id)
    cases life_step hs.custody hs.aligned h hat hat' with
    | stay hkeep =>
      rcases hkeep with heq | hev
      · exact hf id d hold r (heq ▸ hr)
      · rw [hev.2] at hr
        cases hr
    | finalize hv => rcases hv with hv | ⟨c, hv⟩ <;> cases hv
  · obtain ⟨eff, hsh, hlog, -⟩ := h.origin hnew
    obtain ⟨e, rfl, rfl, rfl⟩ := Shared.finalize_of_logs hlog
    have hget : ((StoreOp.finalize e).apply s.sh.store).get e.id = some r := by rw [hsh] at hr; exact hr
    rcases CallStore.get_finalize s.sh.store e e.id with hmark | hev
    · rw [hmark, CallStore.get_modify, if_pos rfl] at hget
      obtain ⟨r₀, -, rfl⟩ := Option.map_eq_some_iff.mp hget
      exact ⟨rfl, rfl⟩
    · rw [hev.2] at hget
      cases hget

theorem finalized_unique (hc : s.Custody) {d d' : Disposition} (h : .finalized id d ∈ s.sh.log)
    (h' : .finalized id d' ∈ s.sh.log) : d = d' := by
  obtain ⟨i, hi⟩ := List.getElem?_of_mem h
  obtain ⟨j, hj⟩ := List.getElem?_of_mem h'
  obtain rfl := Counting.eq_of_countP_le_one (finalized_le_one hc id) hi hj (beq_self_eq_true id)
    (beq_self_eq_true id)
  exact (Obs.finalized.inj (Option.some.inj (hi.symm.trans hj))).2

theorem Origin.of_persist {eff : Effect} {rec : CallRecord} (h : Origin cfg s act eff)
    (hp : eff.persists = some rec) :
    ∃ (tok : Token) (input : RunInput) (a : Attempt) (ph : Phase), act = .run tok input ∧
      s.attempts[tok]? = some a ∧ a.next cfg s.sh tok input = some (ph, eff) := by
  cases h with
  | @run tok input a ph eff ha hn => exact ⟨tok, input, a, ph, rfl, ha, hn⟩
  | @placing i p pc eff hpl hn =>
    unfold Placing.next at hn
    split at hn
    all_goals cases hn
    all_goals cases hp
  | endCall i =>
    rcases s.sh.endCall_cases i with ⟨e, rest, -, h⟩ | ⟨tok, -, -, h⟩ | ⟨-, -, h⟩
    all_goals
      rw [h] at hp
      cases hp
  | @ender i x pc eff hd hn =>
    unfold Ender.next at hn
    split at hn
    all_goals cases hn
    all_goals cases hp
  | place | pop | register => cases hp

structure Filed (s : Sys) : Prop where
  sound : s.Sound
  keyed : s.Keyed
  finished : s.Finished
  backed : ∀ id, s.writers id + s.persisted id ≤ s.finalized id
  archived : ∀ rec, .persisted rec ∈ s.sh.log → rec.state = .ended ∧
    ∃ d, rec.disposition = some d ∧ .finalized rec.callId d ∈ s.sh.log

theorem filed_init (clock : ℕ) : (init cfg clock).Filed where
  sound := sound_init clock
  keyed id r hr := by
    have hget : (init cfg clock).sh.store.get id = none := CallStore.get_withHistoryCap _ _
    rw [hget] at hr
    cases hr
  finished _ _ h := by cases h
  backed _ := le_rfl
  archived _ h := by cases h

theorem exists_finalized (h : 1 ≤ s.finalized id) : ∃ d, .finalized id d ∈ s.sh.log := by
  obtain ⟨o, ho, hfin⟩ := List.one_le_countP_iff.mp h
  cases o with
  | finalized i d =>
    obtain rfl : i = id := beq_iff_eq.mp hfin
    exact ⟨d, ho⟩
  | _ => cases hfin

theorem filed_step (hdir : cfg.transcriptDir.isSome = true) (hf : s.Filed) (h : Step cfg s act s') :
    s'.Filed where
  sound := sound_step hf.sound h
  keyed := keyed_step hf.keyed h
  finished := finished_step hf.finished hf.sound h
  backed id := by
    have := hf.backed id
    cases write_step hdir hf.keyed hf.sound.aligned h id with
    | kept hok heq => omega
    | unwritten hno hw hp hfin => omega
    | lost hno hw hp hfin => omega
  archived := by
    intro rec hmem
    have hgrow : ∀ {o}, o ∈ s.sh.log → o ∈ s'.sh.log := fun ho => by
      rw [h.log_eq]
      exact List.mem_append_left _ ho
    rw [h.log_eq, List.mem_append] at hmem
    rcases hmem with hold | hnew
    · obtain ⟨hst, d, hd, hfin⟩ := hf.archived rec hold
      exact ⟨hst, d, hd, hgrow hfin⟩
    · obtain ⟨eff, -, hlog, horigin⟩ := h.origin hnew
      obtain ⟨tok, input, a, ph, -, ha, hn⟩ := horigin.of_persist (Shared.persists_of_mem hlog)
      cases Attempt.next_write hdir hn with
      | write rec' hp hq hfz hw hrec hm =>
        obtain rfl := Option.some.inj (hw.symm.trans (Shared.persists_of_mem hlog))
        have hkey := hf.keyed _ _ hrec
        have hwriter : 1 ≤ s.writers a.id := Counting.countP_pos ha (by simp [Attempt.writes, hp])
        have hback := hf.backed a.id
        obtain ⟨d, hd⟩ := exists_finalized (show 1 ≤ s.finalized a.id by omega)
        obtain ⟨hst, hdisp⟩ := hf.finished a.id d hd rec' hrec
        exact ⟨hst, d, hdisp, hkey.symm ▸ hgrow hd⟩
      | still hph hfz hw | finalize hp hm hfz hw | lost hp hq hfz hw =>
        rw [Shared.persists_of_mem hlog] at hw
        cases hw

/-- The records that are not written: those of the calls that are finalized before the end
of a talk, or lost on the way from there. A call is in `transcript_dir` exactly when
every step of the run meets `Writes`. -/
theorem persisted_iff {clock : ℕ} {tr : List Act} {d : Disposition} (hdir : cfg.transcriptDir.isSome = true)
    (h : Run (step cfg) Always (init cfg clock) tr s) (hfin : .finalized id d ∈ s.sh.log)
    (hdone : s.writers id = 0) :
    (∃ rec, .persisted rec ∈ s.sh.log ∧ rec.callId = id ∧ rec.state = .ended ∧ rec.disposition = some d) ↔
      Run (step cfg) (Writes id) (init cfg clock) tr s := by
  have hfiled : s.Filed := h.invariant (filed_init clock) fun _ _ _ hf _ hs => filed_step hdir hf (step_cases hs)
  have hone : s.finalized id = 1 := by
    have hle := finalized_le_one hfiled.sound.custody id
    have hpos : 1 ≤ s.finalized id := List.one_le_countP_iff.mpr ⟨_, hfin, beq_self_eq_true id⟩
    exact Nat.le_antisymm hle hpos
  have hcases : _ ∧ _ ∨ ¬ Run (step cfg) (Writes id) (init cfg clock) tr s ∧ _ := h.good_or_bad
    (G := fun t => t.Filed ∧ t.writers id + t.persisted id = t.finalized id)
    (B := fun t => t.Filed ∧ t.finalized id = 1 ∧ t.writers id + t.persisted id = 0)
    ⟨filed_init clock, rfl⟩ ?_ ?_ ?_
  · rcases hcases with ⟨hok, -, heq⟩ | ⟨hno, -, -, hzero⟩
    · refine iff_of_true ?_ hok
      obtain ⟨o, ho, hper⟩ : ∃ o ∈ s.sh.log, Obs.persists id o = true :=
        List.one_le_countP_iff.mp (by unfold persisted at heq; omega)
      cases o with
      | persisted rec =>
        obtain rfl : rec.callId = id := beq_iff_eq.mp hper
        obtain ⟨hst, d', hd', hfin'⟩ := hfiled.archived rec ho
        obtain rfl : d' = d := finalized_unique hfiled.sound.custody hfin' hfin
        exact ⟨rec, ho, rfl, hst, hd'⟩
      | _ => cases hper
    · refine iff_of_false ?_ hno
      rintro ⟨rec, hrec, hid, -⟩
      have hpos : 1 ≤ s.persisted id := List.one_le_countP_iff.mpr ⟨_, hrec, beq_iff_eq.mpr hid⟩
      omega
  · rintro t act t' ⟨hf, heq⟩ hok hs
    refine ⟨filed_step hdir hf (step_cases hs), ?_⟩
    cases write_step hdir hf.keyed hf.sound.aligned (step_cases hs) id with
    | kept hok' hsum => omega
    | unwritten hno => exact absurd hok hno
    | lost hno => exact absurd hok hno
  · rintro t act t' ⟨hf, heq⟩ hno hs
    have hf' := filed_step hdir hf (step_cases hs)
    have hle : t'.finalized id ≤ 1 := finalized_le_one hf'.sound.custody id
    refine ⟨hf', ?_⟩
    cases write_step hdir hf.keyed hf.sound.aligned (step_cases hs) id with
    | kept hok => exact absurd hok hno
    | unwritten _ hw hp hfin' => omega
    | lost _ hw hp hfin' => omega
  · rintro t act t' ⟨hf, hfz, hzero⟩ hs
    have hf' := filed_step hdir hf (step_cases hs)
    have hle : t'.finalized id ≤ 1 := finalized_le_one hf'.sound.custody id
    refine ⟨hf', ?_⟩
    cases write_step hdir hf.keyed hf.sound.aligned (step_cases hs) id with
    | kept hok hsum => omega
    | unwritten _ hw hp hfin' => omega
    | lost _ hw hp hfin' => omega

instance (s : Sys) (act : Act) : Decidable (Writes id s act) :=
  match act with
  | .run tok input => inferInstanceAs (Decidable (∀ a ∈ s.attempts[tok]?, a.id = id → a.archives s.sh input = true))
  | .ender i => inferInstanceAs (Decidable (∀ d ∈ s.enders[i]?, d.id = id → d.pc.finalizes = false))
  | .tick _ | .place .. | .placing _ | .dispatch | .timer | .endCall _ => .isTrue trivial

def keptOnDisk : ServerConfig := { noPreflight with transcriptDir := some "calls" }

/-- A call that is answered, talked on and hung up. -/
def talked : List Act :=
  ringing ++ [.run 0 (.ring (.answered ⟨8, .alaw, 20⟩)), .run 0 .go,
      .run 0 (.loop (.bridgeDone (some .phoneClosed))), .run 0 (.joined ⟨.callerHangup, none, [⟨.user, "hello", 0⟩]⟩),
      .run 0 (.snapshot {} ⟨0, 0, 0⟩ ⟨false, 0, 0, 0⟩)] ++ List.replicate 6 (.run 0 .go)

theorem persisted_talked :
    ∃ s, exec (guarded (step keptOnDisk) (Writes (callId 0))) (init keptOnDisk 0) talked = some s ∧
      ∃ rec, .persisted rec ∈ s.sh.log ∧ rec.callId = callId 0 ∧ rec.state = .ended ∧
        rec.disposition = some .completed := by
  have hrun : (exec (guarded (step keptOnDisk) (Writes (callId 0))) (init keptOnDisk 0) talked).any (fun s =>
      s.writers (callId 0) = 0 ∧ s.sh.log.any (Obs.finalizesAs (callId 0) .completed) = true) = true := by
    decide +kernel
  obtain ⟨s, hs, hend⟩ := (Option.any_eq_true _ _).mp hrun
  obtain ⟨hdone, hlog⟩ := of_decide_eq_true hend
  obtain ⟨o, ho, hfin⟩ := List.any_eq_true.mp hlog
  cases o with
  | finalized i d =>
    obtain ⟨hi, hd⟩ := Bool.and_eq_true_iff.mp hfin
    obtain rfl : i = callId 0 := beq_iff_eq.mp hi
    obtain rfl : d = .completed := beq_iff_eq.mp hd
    have hrun := run_of_guarded hs
    exact ⟨s, hs, (persisted_iff rfl hrun.unconditional ho hdone).mpr hrun⟩
  | _ => cases hfin

/-- Nobody answers. The call is ended, and nothing that would write its record is left. -/
theorem unanswered_not_persisted :
    ∃ s, exec (step keptOnDisk) (init keptOnDisk 0) (unanswered ++ List.replicate 4 (.run 0 .go)) = some s ∧
      .finalized (callId 0) .noAnswer ∈ s.sh.log ∧ (s.attempts.all fun a => a.phase matches .gone) = true ∧
      ∀ rec, .persisted rec ∉ s.sh.log := by
  obtain ⟨s, hs, hfin, hgone, hlog⟩ : ∃ s, exec (step keptOnDisk) (init keptOnDisk 0)
        (unanswered ++ List.replicate 4 (.run 0 .go)) = some s ∧
      s.sh.log[4]? = some (.finalized (callId 0) .noAnswer) ∧
      (s.attempts.all fun a => a.phase matches .gone) = true ∧
      (s.sh.log.all fun | .persisted _ => false | _ => true) = true := ⟨_, rfl, rfl, rfl, rfl⟩
  refine ⟨s, hs, List.mem_of_getElem? hfin, hgone, fun rec hrec => ?_⟩
  cases List.all_eq_true.mp hlog _ hrec

end Sys

end Kutsu
