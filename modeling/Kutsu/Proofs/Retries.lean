import Kutsu.Proofs.Cancel

/-! A busy retry and the call's numbers. It pushes the call again under its own id, one
attempt later than the record says, and counts it as placed once more. -/

namespace Kutsu

open Runs

def Obs.pushes (id : CallId) : Obs → Bool
  | .pushed e => e.callId == id
  | _ => false

def Effect.pushes (id : CallId) : Effect → Bool
  | .push e => e.callId == id
  | _ => false

/-- How often the call was put in the queue: once when it is placed, and once by every
busy retry. -/
def Sys.pushes (s : Sys) (id : CallId) : ℕ := s.sh.log.countP (Obs.pushes id)

namespace Shared

variable {sh : Shared} {eff : Effect} {id : CallId}

theorem countP_pushes (sh : Shared) (eff : Effect) (id : CallId) :
    (sh.logs eff).countP (Obs.pushes id) = (eff.pushes id).toNat := by
  rw [countP_entries (fun _ => rfl) (fun _ _ => rfl) fun _ _ => rfl]
  cases eff with
  | push e =>
    rw [Effect.entries, List.countP_singleton]
    simp [Obs.pushes, Effect.pushes, Bool.toNat, Bool.cond_eq_ite]
  | _ => rfl

end Shared

/-- What no operation on the store changes in a record. -/
structure CallRecord.Continues (r' r : CallRecord) : Prop where
  callId : r'.callId = r.callId
  attempt : r'.attempt = r.attempt

theorem StoreOp.continues_apply (op : StoreOp) (s : CallStore) {k : CallId} {r' : CallRecord}
    (h : (op.apply s).get k = some r') :
    (∃ r, s.get k = some r ∧ r'.Continues r) ∨ ∃ rec, op = .insert rec ∧ rec.callId = k ∧ r' = rec := by
  have hmod : ∀ (id : CallId) (f : CallRecord → CallRecord), (s.modify id f).get k = some r' →
      (∀ r, (f r).Continues r) → ∃ r, s.get k = some r ∧ r'.Continues r := by
    intro id f h hf
    rw [CallStore.get_modify] at h
    split_ifs at h
    · obtain ⟨r, hr, rfl⟩ := Option.map_eq_some_iff.mp h
      exact ⟨r, hr, hf r⟩
    · exact ⟨r', h, rfl, rfl⟩
  cases op with
  | insert rec =>
    rw [apply, CallStore.get_insert] at h
    split_ifs at h with hk
    · exact Or.inr ⟨rec, rfl, hk.symm, (Option.some.inj h).symm⟩
    · exact Or.inl ⟨r', h, rfl, rfl⟩
  | setState id st => exact Or.inl (hmod _ _ h fun _ => ⟨rfl, rfl⟩)
  | appendTranscript id entry => exact Or.inl (hmod _ _ h fun _ => ⟨rfl, rfl⟩)
  | appendAffect id entry => exact Or.inl (hmod _ _ h fun _ => ⟨rfl, rfl⟩)
  | setTranscript id ts => exact Or.inl (hmod _ _ h fun _ => ⟨rfl, rfl⟩)
  | setQuality id q => exact Or.inl (hmod _ _ h fun _ => ⟨rfl, rfl⟩)
  | finalize e =>
    rcases CallStore.get_finalize s e k with hget | hev
    · exact Or.inl (hmod e.id e.mark (hget ▸ h) fun _ => ⟨rfl, rfl⟩)
    · rw [hev.2] at h
      cases h

def Effect.inserts : Effect → Option CallRecord
  | .store (.insert rec) => some rec
  | _ => none

theorem Shared.continues_apply {sh : Shared} {eff : Effect} {k : CallId} {r' : CallRecord}
    (h : (sh.apply eff).store.get k = some r') :
    (∃ r, sh.store.get k = some r ∧ r'.Continues r) ∨
      ∃ rec, eff.inserts = some rec ∧ rec.callId = k ∧ r' = rec := by
  cases eff with
  | store op =>
    rcases op.continues_apply sh.store h with hold | ⟨rec, rfl, hk, hr⟩
    · exact Or.inl hold
    · exact Or.inr ⟨rec, rfl, hk, hr⟩
  | finalize e =>
    rcases (StoreOp.finalize e).continues_apply sh.store h with hold | ⟨rec, heq, -⟩
    · exact Or.inl hold
    · cases heq
  | register | dropGuard | send =>
    rw [(rewired_apply sh rfl).store] at h
    exact Or.inl ⟨r', h, rfl, rfl⟩
  | _ => exact Or.inl ⟨r', h, rfl, rfl⟩

theorem Shared.queue_apply {sh : Shared} {eff : Effect} (h : eff.plain = true) (hpush : ∀ e, eff ≠ .push e) :
    (sh.apply eff).queue = sh.queue := by
  cases eff with
  | pop | remove | register => cases h
  | push e => exact absurd rfl (hpush e)
  | dropGuard | send => exact (rewired_apply sh rfl).queue
  | _ => rfl

namespace Stage.Step

variable {cfg : ServerConfig} {sh : Shared} {tok : Token} {a : Attempt} {input : RunInput} {p q : Stage}
  {eff : Effect}

theorem not_inserts (h : Stage.Step cfg sh tok a input p q eff) : eff.inserts = none := by
  cases h with
  | talking he =>
    rcases he with rfl | ⟨q, rfl⟩ | ⟨op, rfl, hop⟩
    · rfl
    · rfl
    · rcases hop with ⟨x, rfl⟩ | ⟨x, rfl⟩ | ⟨x, rfl⟩ | ⟨x, rfl⟩ <;> rfl
  | persist he => rcases he with rfl | ⟨rec, rfl⟩ <;> rfl
  | panic hi hs => split_ifs <;> rfl
  | _ => rfl

end Stage.Step

namespace Sys

variable {cfg : ServerConfig} {act : Act} {s s' : Sys} {id : CallId} {n : ℕ}

/-- The attempt that a call is at which is in the queue or was dispatched. -/
inductive Dials (s : Sys) (id : CallId) : ℕ → Prop where
  | pending {e : PendingEntry} (he : e ∈ s.sh.queue.pending) (hid : e.callId = id) : Dials s id e.attempt
  | hand {e : PendingEntry} {now : ℕ} {probe : Bool} (hd : s.disp = .register e now probe)
      (hid : e.callId = id) : Dials s id e.attempt
  | attempt {tok : Token} {a : Attempt} (ha : s.attempts[tok]? = some a) (ho : a.owns id = true) :
      Dials s id a.entry.attempt

theorem Dials.at (h : s.Dials id n) : s.At id .pending ∨ s.At id .hand ∨ ∃ st, s.At id (.attempt st) := by
  cases h with
  | pending he hid => exact Or.inl (.pending he hid)
  | hand hd hid => exact Or.inr (Or.inl (.hand (by rw [hd]; exact beq_iff_eq.mpr hid)))
  | attempt ha ho => exact Or.inr (Or.inr ⟨_, .attempt ha ho⟩)

theorem Dials.not_placing (hc : s.Custody) (h : s.Dials id n) {i : ℕ} {p : Placing}
    (hp : s.placing[i]? = some p) : p.owes id = false := by
  rw [Bool.eq_false_iff]
  intro ho
  rcases h.at with hat | hat | ⟨st, hat⟩ <;> cases at_unique hc (.placing hp ho) hat

inductive DialsStep (s s' : Sys) (id : CallId) : ℕ → Prop where
  | kept {n : ℕ} (h : s.Dials id n) (hp : s'.pushes id = s.pushes id) : DialsStep s s' id n
  | placed {i : ℕ} {p : Placing} (hp : s.placing[i]? = some p) (hpc : p.pc = .push)
      (hid : p.entry.callId = id) (hsh : s'.sh = s.sh.apply (.push p.entry)) : DialsStep s s' id p.entry.attempt
  | retried {n : ℕ} {e : PendingEntry} (h : s.Dials id n) (he : e.attempt = n + 1) (hid : e.callId = id)
      (hsh : s'.sh = s.sh.apply (.push e)) : DialsStep s s' id e.attempt

theorem pushes_apply (eff : Effect) (hsh : s'.sh = s.sh.apply eff) (id : CallId) :
    s'.pushes id = s.pushes id + (eff.pushes id).toNat := by
  rw [pushes, hsh, Shared.log_apply, List.countP_append, Shared.countP_pushes]
  rfl

theorem DialsStep.of_effect (eff : Effect) (hsh : s'.sh = s.sh.apply eff) (h : s.Dials id n)
    (hpush : eff.pushes id = false) : DialsStep s s' id n := by
  refine .kept h ?_
  rw [pushes_apply eff hsh, hpush]
  rfl

theorem dials_dispatch (hal : s.Aligned) (h : Dispatch cfg s s') (hn : s'.Dials id n) :
    DialsStep s s' id n := by
  -- moving an attempt along leaves it with its entry and its call
  have hmove : ∀ {ph : Phase} {st : Stage} {t tok : Token} {a : Attempt}, s.disp.hand = some (t, st) →
      (s.setPhase t ph)[tok]? = some a → a.owns id = true → s.Dials id a.entry.attempt := by
    intro ph st t tok a hd ha ho
    obtain ⟨b, hb, rfl⟩ := hal.hand t st hd
    rw [setPhase_eq hb] at ha
    by_cases heq : t = tok
    · subst heq
      rw [List.getElem?_set_self (List.getElem?_eq_some_iff.mp hb).1] at ha
      obtain rfl := Option.some.inj ha
      have hown : b.phase.stage.owns = true := DispPc.owns_of_hand hd
      have hold : b.owns id = true := by
        simp only [Attempt.owns, Bool.and_eq_true] at ho ⊢
        exact ⟨ho.1, hown⟩
      exact .attempt (a := b) hb hold
    · rw [List.getElem?_set_ne heq] at ha
      exact .attempt ha ho
  cases h with
  | look hl =>
    refine .of_effect .idle rfl ?_ rfl
    cases hn with
    | pending he hid => exact .pending he hid
    | attempt ha ho => exact .attempt ha ho
    | hand hd =>
      dsimp only at hd
      subst hd
      generalize s.disp = d at hl
      cases hl
  | @pop now probe e rest hd hq =>
    have hpend := (MemQueue.popEligible_some hq).2
    refine .of_effect (.pop now e rest) rfl ?_ rfl
    cases hn with
    | pending he hid => exact .pending (hpend ▸ List.mem_cons_of_mem _ he) hid
    | attempt ha ho => exact .attempt ha ho
    | hand hd hid =>
      obtain ⟨rfl, -⟩ := DispPc.register.inj hd
      exact .pending (hpend ▸ List.mem_cons_self) hid
  | @register e now probe hd =>
    refine .of_effect (.register e.callId) rfl ?_ rfl
    cases hn with
    | pending he hid => exact .pending (by rwa [(s.sh.rewired_apply rfl).queue] at he) hid
    | hand hd => cases hd
    | attempt ha ho =>
      rcases Counting.getElem?_concat_cases ha with hold | ⟨-, rfl⟩
      · exact .attempt hold ho
      · exact .hand hd (beq_iff_eq.mp (Bool.and_elim_left ho))
  | @claim tok now probe hd =>
    refine .of_effect .claimSlot rfl ?_ rfl
    cases hn with
    | pending he hid => exact .pending he hid
    | hand hd =>
      dsimp only at hd
      split_ifs at hd
    | attempt ha ho => exact hmove (by rw [hd]; rfl) ha ho
  | mark hd =>
    refine .of_effect (.markProbe _ _) rfl ?_ rfl
    cases hn with
    | pending he hid => exact .pending he hid
    | hand hd => cases hd
    | attempt ha ho => exact .attempt ha ho
  | setRinging hd =>
    refine .of_effect (.store _) rfl ?_ rfl
    cases hn with
    | pending he hid => exact .pending he hid
    | hand hd => cases hd
    | attempt ha ho => exact hmove (by rw [hd]; rfl) ha ho
  | spawn hd =>
    refine .of_effect .idle rfl ?_ rfl
    cases hn with
    | pending he hid => exact .pending he hid
    | hand hd => cases hd
    | attempt ha ho => exact hmove (by rw [hd]; rfl) ha ho
  | wake hd hp =>
    refine .of_effect .consume rfl ?_ rfl
    cases hn with
    | pending he hid => exact .pending he hid
    | hand hd => cases hd
    | attempt ha ho => exact .attempt ha ho

theorem dials_run (hs : s.Sound) {tok : Token} {input : RunInput} {a : Attempt} {phase : Phase} {eff : Effect}
    (ha : s.attempts[tok]? = some a) (hn : a.next cfg s.sh tok input = some (phase, eff))
    (hs' : s' = { s with sh := s.sh.apply eff, attempts := s.attempts.set tok { a with phase } })
    (hd : s'.Dials id n) : DialsStep s s' id n := by
  have hstep := Attempt.next_step hn
  have hlt := (List.getElem?_eq_some_iff.mp ha).1
  -- whatever attempt has the call now had it before
  have hatt : ∀ {t : Token} {b : Attempt}, s'.attempts[t]? = some b → b.owns id = true →
      (b.entry = a.entry ∧ a.owns id = true ∧ phase.stage.owns = true) ∨
        (tok ≠ t ∧ s.attempts[t]? = some b) := by
    intro t b hb ho
    subst hs'
    by_cases heq : tok = t
    · subst heq
      dsimp only at hb
      rw [List.getElem?_set_self hlt] at hb
      obtain rfl := Option.some.inj hb
      have hgive := hstep.owns_gives id
      have hown : a.owns id = true := by
        simp only [Attempt.owns, Attempt.id] at ho hgive ⊢
        rw [ho] at hgive
        cases hp : a.entry.callId == id && a.phase.stage.owns with
        | true => rfl
        | false =>
          rw [hp, Bool.toNat_true, Bool.toNat_false] at hgive
          omega
      exact Or.inl ⟨rfl, hown, Bool.and_elim_right ho⟩
    · dsimp only at hb
      rw [List.getElem?_set_ne heq] at hb
      exact Or.inr ⟨heq, hb⟩
  by_cases hpush : ∃ e, eff = .push e
  · obtain ⟨e, rfl⟩ := hpush
    obtain ⟨hp, hq, t, rfl⟩ := hstep.push
    have hown : a.owns a.id = true := by simp [Attempt.owns, hp, Stage.owns]
    have hfresh := fresh_of_attempt hs.custody ha hown
    have hother : s.Dials id n → a.id ≠ id → DialsStep s s' id n := by
      intro hold hne
      exact .of_effect (.push (a.retryEntry t)) (by rw [hs']) hold (beq_eq_false_iff_ne.mpr hne)
    cases hd with
    | @pending e he hid =>
      have he : e ∈ (s.sh.queue.push (a.retryEntry t)).pending := by
        rw [hs'] at he
        exact he
      rcases List.mem_cons.mp ((MemQueue.push_perm (e := a.retryEntry t) hfresh).mem_iff.mp he) with rfl | hold
      · refine .retried (n := a.entry.attempt) (.attempt ha ?_) rfl hid (by rw [hs'])
        exact (show a.id = id from hid) ▸ hown
      · refine hother (.pending hold hid) ?_
        rintro rfl
        exact hfresh e hold hid
    | @hand e now probe hd hid =>
      have hd : s.disp = .register e now probe := by
        rw [hs'] at hd
        exact hd
      refine hother (.hand hd hid) ?_
      rintro rfl
      cases at_unique hs.custody (.attempt ha hown) (.hand (by rw [hd]; exact beq_iff_eq.mpr hid))
    | @attempt t' b hb ho =>
      rcases hatt hb ho with ⟨-, -, hst⟩ | ⟨hne, hold⟩
      · rw [hq] at hst
        cases hst
      · refine hother (.attempt hold ho) ?_
        rintro rfl
        exact hne (owner_unique hs.custody ha hold hown ho)
  · have hquiet : s.Dials id n → DialsStep s s' id n := by
      intro hold
      refine .of_effect eff (by rw [hs']) hold ?_
      cases eff with
      | push e => exact absurd ⟨e, rfl⟩ hpush
      | _ => rfl
    refine hquiet ?_
    cases hd with
    | pending he hid =>
      subst hs'
      exact .pending (Shared.queue_apply hstep.plain (fun e h => hpush ⟨e, h⟩) ▸ he) hid
    | hand hd hid =>
      subst hs'
      exact .hand hd hid
    | @attempt t b hb ho =>
      rcases hatt hb ho with ⟨he, hown, -⟩ | ⟨-, hold⟩
      · rw [he]
        exact .attempt ha hown
      · exact .attempt hold ho

theorem dials_placing (hs : s.Sound) {i : ℕ} {p : Placing} {pc : PlacePc} {eff : Effect}
    (hp : s.placing[i]? = some p) (hn : p.next s.sh.clock = some (pc, eff))
    (hs' : s' = { s with sh := s.sh.apply eff, placing := s.placing.set i { p with pc } })
    (hd : s'.Dials id n) : DialsStep s s' id n := by
  subst hs'
  have hquiet : (s.sh.apply eff).queue = s.sh.queue → s.Dials id n := by
    intro hqueue
    cases hd with
    | pending he hid => exact .pending (hqueue ▸ he) hid
    | hand hd hid => exact .hand hd hid
    | attempt ha ho => exact .attempt ha ho
  have hne : p.pc.unpushed = true → s.Dials id n → p.entry.callId ≠ id := by
    rintro hun hold rfl
    have hno := hold.not_placing hs.custody hp
    simp [Placing.owes, hun] at hno
  unfold Placing.next at hn
  split at hn <;> rename_i hpc
  all_goals rw [hpc] at hne
  all_goals cases hn
  · exact .of_effect (.store (.insert _)) rfl (hquiet rfl) rfl
  · exact .of_effect .countPlaced rfl (hquiet rfl) rfl
  · have hown : p.owes p.entry.callId = true := by simp [Placing.owes, hpc, PlacePc.unpushed]
    have hfresh := fresh_of_placing hs.custody hp hown
    have hother : s.Dials id n → DialsStep s { s with sh := s.sh.apply (.push p.entry)
                                                      placing := s.placing.set i { p with pc := .wake } } id n :=
      fun hold => .of_effect (.push p.entry) rfl hold (beq_eq_false_iff_ne.mpr (hne rfl hold))
    cases hd with
    | pending he hid =>
      rcases List.mem_cons.mp ((MemQueue.push_perm hfresh).mem_iff.mp he) with rfl | hold
      · exact .placed hp hpc hid rfl
      · exact hother (.pending hold hid)
    | hand hd hid => exact hother (.hand hd hid)
    | attempt ha ho => exact hother (.attempt ha ho)
  · exact .of_effect .notify rfl (hquiet rfl) rfl

theorem dials_step (hs : s.Sound) (h : Step cfg s act s') (hn : s'.Dials id n) : DialsStep s s' id n := by
  -- a step that leaves the queue, the dispatcher and the attempts
  have hkeep : ∀ eff : Effect, s'.sh = s.sh.apply eff → s'.sh.queue = s.sh.queue → s'.disp = s.disp →
      s'.attempts = s.attempts → eff.pushes id = false → DialsStep s s' id n := by
    intro eff hsh hqueue hdisp hatt hpush
    refine .of_effect eff hsh ?_ hpush
    cases hn with
    | pending he hid => exact .pending (hqueue ▸ he) hid
    | hand hd hid => exact .hand (hdisp ▸ hd) hid
    | attempt ha ho => exact .attempt (hatt ▸ ha) ho
  cases h with
  | tick now =>
    have hold : s.Dials id n := by
      cases hn with
      | pending he hid => exact .pending he hid
      | hand hd hid => exact .hand hd hid
      | attempt ha ho => exact .attempt ha ho
    exact .kept hold rfl
  | place => exact hkeep .mint rfl rfl rfl rfl rfl
  | @placing i p pc eff hp hn' hl => exact dials_placing hs hp hn' rfl hn
  | dispatch h => exact dials_dispatch hs.aligned h hn
  | timer hd ht =>
    refine .of_effect .idle rfl ?_ rfl
    cases hn with
    | pending he hid => exact .pending he hid
    | hand hd => cases hd
    | attempt ha ho => exact .attempt ha ho
  | run ha hn' hl => exact dials_run hs ha hn' rfl hn
  | endCall i hl =>
    rcases s.sh.endCall_cases i with ⟨e, rest, hq, h⟩ | ⟨tok, -, -, h⟩ | ⟨-, -, h⟩
    · have hperm := (MemQueue.remove_some hq).2
      refine .of_effect (.remove e rest) (by rw [h]) ?_ rfl
      cases hn with
      | pending he hid =>
        rw [h] at he
        exact .pending (hperm.mem_iff.mpr (List.mem_cons_of_mem _ he)) hid
      | hand hd hid => exact .hand hd hid
      | attempt ha ho => exact .attempt ha ho
    · exact hkeep (.takeSender tok i) (by rw [h]) (by rw [h]; rfl) rfl rfl rfl
    · exact hkeep (.noSender i) (by rw [h]) (by rw [h]; rfl) rfl rfl rfl
  | @ender i d pc eff hd hn' =>
    unfold Ender.next at hn'
    split at hn'
    · cases hn'
      exact hkeep (.finalize _) rfl rfl rfl rfl rfl
    · cases hn'
      exact hkeep (.bump d.id _) rfl rfl rfl rfl rfl
    · cases hn'
      refine hkeep (.send _ d.id) rfl ?_ rfl rfl rfl
      simp only [Shared.apply]
      split_ifs <;> rfl
    · cases hn'

theorem Step.pushes (h : Step cfg s act s') (id : CallId) :
    s'.pushes id = s.pushes id ∨ (s'.pushes id = s.pushes id + 1 ∧ s'.At id .pending) := by
  rcases h.shared with ⟨eff, hsh⟩ | ⟨now, hsh⟩
  · rw [pushes_apply eff hsh]
    cases eff with
    | push e =>
      cases hp : e.callId == id with
      | false => exact Or.inl (by simp [Effect.pushes, hp])
      | true =>
        refine Or.inr ⟨by simp [Effect.pushes, hp], .pending (e := e) ?_ (beq_iff_eq.mp hp)⟩
        rw [hsh]
        exact s.sh.queue.mem_push e
    | _ => exact Or.inl rfl
  · left
    rw [Sys.pushes, hsh]
    rfl

theorem Step.record (h : Step cfg s act s') {r' : CallRecord} (hr : s'.sh.store.get id = some r') :
    (∃ r, s.sh.store.get id = some r ∧ r'.Continues r) ∨
      ∃ i p, act = .placing i ∧ s.placing[i]? = some p ∧ p.pc = .insert ∧ p.entry.callId = id ∧
        r' = p.record s.sh.clock := by
  have hof : ∀ eff : Effect, s'.sh = s.sh.apply eff → eff.inserts = none →
      ∃ r, s.sh.store.get id = some r ∧ r'.Continues r := by
    intro eff hsh hno
    rw [hsh] at hr
    rcases Shared.continues_apply hr with hold | ⟨rec, hrec, -⟩
    · exact hold
    · rw [hno] at hrec
      cases hrec
  cases h with
  | tick => exact Or.inl ⟨r', hr, rfl, rfl⟩
  | place => exact Or.inl (hof .mint rfl rfl)
  | @placing i p pc eff hp hn hl =>
    rcases Shared.continues_apply hr with hold | ⟨rec, hrec, hk, rfl⟩
    · exact Or.inl hold
    · right
      unfold Placing.next at hn
      split at hn <;> rename_i hpc
      all_goals cases hn
      · obtain rfl := Option.some.inj hrec
        exact ⟨i, p, rfl, hp, hpc, hk, rfl⟩
      all_goals cases hrec
  | dispatch h =>
    left
    cases h with
    | look | spawn => exact hof .idle rfl rfl
    | pop => exact hof (.pop _ _ _) rfl rfl
    | register => exact hof (.register _) rfl rfl
    | claim => exact hof .claimSlot rfl rfl
    | mark => exact hof (.markProbe _ _) rfl rfl
    | setRinging => exact hof (.store _) rfl rfl
    | wake => exact hof .consume rfl rfl
  | timer => exact Or.inl ⟨r', hr, rfl, rfl⟩
  | @run tok input a phase eff ha hn hl => exact Or.inl (hof eff rfl (Attempt.next_step hn).not_inserts)
  | endCall i =>
    left
    rcases s.sh.endCall_cases i with ⟨e, rest, -, h⟩ | ⟨tok, -, -, h⟩ | ⟨-, -, h⟩
    · exact hof (.remove e rest) (by rw [h]) rfl
    · exact hof (.takeSender tok i) (by rw [h]) rfl
    · exact hof (.noSender i) (by rw [h]) rfl
  | @ender i d pc eff hd hn =>
    refine Or.inl (hof eff rfl ?_)
    unfold Ender.next at hn
    split at hn
    all_goals cases hn
    all_goals rfl

end Sys

def Place.unpushed : Place → Bool
  | .unminted | .placing _ => true
  | _ => false

theorem Life.unpushed {act : Act} {v w : Place} {x y : Option CallRecord} (h : Life act v x w y) :
    v.unpushed = w.unpushed ∨ w = .pending := by
  cases h with
  | push => exact Or.inr rfl
  | finalize hv => rcases hv with rfl | ⟨c, rfl⟩ <;> exact Or.inl rfl
  | _ => exact Or.inl rfl

namespace Sys

variable {cfg : ServerConfig} {act : Act} {s s' : Sys} {id : CallId} {n : ℕ}

/-- What the number of pushes says of a call. -/
structure Tallied (s : Sys) : Prop where
  pushed : ∀ id v, s.At id v → (s.pushes id = 0 ↔ v.unpushed = true)
  placing : ∀ (i : ℕ) (p : Placing), s.placing[i]? = some p → p.owes p.entry.callId = true → p.pc ≠ .insert →
    ∀ r, s.sh.store.get p.entry.callId = some r → r.attempt = p.entry.attempt
  dials : ∀ id n, s.Dials id n → ∀ r, s.sh.store.get id = some r → n + 1 = r.attempt + s.pushes id

theorem Dials.pushed (hc : s.Custody) (h : s.Dials id n) {v : Place} (hv : s.At id v) : v.unpushed = false := by
  rcases h.at with hat | hat | ⟨st, hat⟩
  all_goals
    obtain rfl := at_unique hc hv hat
    rfl

theorem Step.placing_back (h : Step cfg s act s') {i : ℕ} {p : Placing} (hp : s'.placing[i]? = some p) :
    s.placing[i]? = some p ∨ p.pc = .insert ∨ ∃ p₀ eff, s.placing[i]? = some p₀ ∧ p₀.entry = p.entry ∧
      p₀.next s.sh.clock = some (p.pc, eff) ∧ s'.sh = s.sh.apply eff := by
  cases h with
  | place =>
    rcases Counting.getElem?_concat_cases hp with hold | ⟨-, rfl⟩
    · exact Or.inl hold
    · exact Or.inr (Or.inl rfl)
  | @placing j p₀ pc eff hp₀ hn hl =>
    by_cases heq : j = i
    · subst heq
      dsimp only at hp
      rw [List.getElem?_set_self (List.getElem?_eq_some_iff.mp hp₀).1] at hp
      obtain rfl := Option.some.inj hp
      exact Or.inr (Or.inr ⟨p₀, eff, hp₀, rfl, hn, rfl⟩)
    · dsimp only at hp
      rw [List.getElem?_set_ne heq] at hp
      exact Or.inl hp
  | dispatch h => cases h <;> exact Or.inl hp
  | _ => exact Or.inl hp

theorem tallied_init (clock : ℕ) : (init cfg clock).Tallied where
  pushed id v hv := by
    obtain rfl : v = .unminted :=
      at_unique (custody_init clock) hv (.unminted fun ⟨n, hn, _⟩ => absurd hn (Nat.not_lt_zero n))
    exact iff_of_true rfl rfl
  placing := fun _ _ h => by cases h
  dials id n hn r hr := by
    have hget : (init cfg clock).sh.store.get id = none := CallStore.get_withHistoryCap _ _
    rw [hget] at hr
    cases hr

theorem pushed_step (ht : s.Tallied) (hs : s.Sound) (h : Step cfg s act s') {w : Place} (hw : s'.At id w) :
    s'.pushes id = 0 ↔ w.unpushed = true := by
  obtain ⟨v, hv⟩ := exists_at hs.custody id
  have hold := ht.pushed id v hv
  rcases h.pushes id with heq | ⟨hsucc, hat⟩
  · rw [heq, hold]
    rcases (life_step hs.custody hs.aligned h hv hw).unpushed with heq' | rfl
    · rw [heq']
    · -- it is in the queue and was not pushed, so it had been pushed before
      cases hw with
      | @pending e he hid =>
        obtain ⟨n, hn⟩ : ∃ n, s'.Dials id n := ⟨_, .pending he hid⟩
        cases dials_step hs h hn with
        | kept hd | retried hd => rw [hd.pushed hs.custody hv]; rfl
        | placed hp hpc hid hsh =>
          rw [pushes_apply _ hsh] at heq
          simp [Effect.pushes, hid] at heq
  · obtain rfl := at_unique (sound_step hs h).custody hw hat
    rw [hsucc]
    exact iff_of_false (Nat.succ_ne_zero _) Bool.false_ne_true

theorem placing_step (ht : s.Tallied) (hs : s.Sound) (h : Step cfg s act s') {i : ℕ} {p : Placing}
    (hp : s'.placing[i]? = some p) (ho : p.owes p.entry.callId = true) (hpc : p.pc ≠ .insert) {r : CallRecord}
    (hr : s'.sh.store.get p.entry.callId = some r) : r.attempt = p.entry.attempt := by
  rcases h.placing_back hp with hold | hins | ⟨p₀, eff, hp₀, he, hn, hsh⟩
  · rcases h.record hr with ⟨r₀, hr₀, -, hatt⟩ | ⟨j, p₁, -, hp₁, hpc₁, hid, -⟩
    · rw [hatt]
      exact ht.placing i p hold ho hpc r₀ hr₀
    · have hown : p₁.owes p.entry.callId = true := by simp [Placing.owes, hid, hpc₁, PlacePc.unpushed]
      have hle := owners_le_one hs.custody p.entry.callId
      unfold owners at hle
      obtain rfl := Counting.eq_of_countP_le_one (by omega) hold hp₁ ho hown
      obtain rfl := Option.some.inj (hold.symm.trans hp₁)
      exact absurd hpc₁ hpc
  · exact absurd hins hpc
  · rw [hsh] at hr
    rw [← he] at hr ⊢
    unfold Placing.next at hn
    split at hn <;> rename_i hpc₀
    · obtain ⟨-, rfl⟩ := Prod.mk.inj (Option.some.inj hn)
      have hget := CallStore.get_insert s.sh.store (p₀.record s.sh.clock) p₀.entry.callId
      obtain rfl := Option.some.inj ((hr.symm.trans hget).trans (if_pos rfl))
      rfl
    · obtain ⟨-, rfl⟩ := Prod.mk.inj (Option.some.inj hn)
      have hown : p₀.owes p₀.entry.callId = true := by simp [Placing.owes, hpc₀, PlacePc.unpushed]
      exact ht.placing i p₀ hp₀ hown (by rw [hpc₀]; decide) r hr
    · obtain ⟨hwake, -⟩ := Prod.mk.inj (Option.some.inj hn)
      simp [Placing.owes, ← hwake, PlacePc.unpushed] at ho
    · obtain ⟨hdone, -⟩ := Prod.mk.inj (Option.some.inj hn)
      simp [Placing.owes, ← hdone, PlacePc.unpushed] at ho
    · cases hn

theorem tallied_step (ht : s.Tallied) (hs : s.Sound) (h : Step cfg s act s') : s'.Tallied where
  pushed _ _ hw := pushed_step ht hs h hw
  placing _ _ hp ho hpc _ hr := placing_step ht hs h hp ho hpc hr
  dials := by
    intro id n hn r hr
    cases dials_step hs h hn with
    | kept hd heq =>
      rw [heq]
      rcases h.record hr with ⟨r₀, hr₀, -, hatt⟩ | ⟨i, p, -, hp, hpc, hid, -⟩
      · rw [hatt]
        exact ht.dials id n hd r₀ hr₀
      · have hno := hd.not_placing hs.custody hp
        simp [Placing.owes, hpc, hid, PlacePc.unpushed] at hno
    | @placed i p hp hpc hid hsh =>
      have hown : p.owes p.entry.callId = true := by simp [Placing.owes, hpc, PlacePc.unpushed]
      subst hid
      have hzero : s.pushes p.entry.callId = 0 := (ht.pushed _ _ (.placing hp hown)).mpr rfl
      rw [hsh] at hr
      rw [pushes_apply _ hsh, hzero, ht.placing i p hp hown (by rw [hpc]; decide) r hr]
      simp [Effect.pushes]
    | @retried m e hd he hid hsh =>
      rw [hsh] at hr
      have hold := ht.dials id m hd r hr
      rw [pushes_apply _ hsh, he, Effect.pushes, hid, beq_self_eq_true, Bool.toNat_true]
      omega

/-- The record of a call that has not been settled is there, in the state that fits. -/
def Standing (s : Sys) : Prop := ∀ id v, s.At id v → v ≠ .settled → v.fits ((s.sh.store.get id).map (·.state))

theorem standing_init (clock : ℕ) : (init cfg clock).Standing := fun id v hv _ =>
  (orderly_init clock).fits id v hv

theorem standing_step (hst : s.Standing) (hs : s.Sound) (h : Step cfg s act s') : s'.Standing := by
  intro id w hw hne
  obtain ⟨v, hv⟩ := exists_at hs.custody id
  have hlife := life_step hs.custody hs.aligned h hv hw
  have hv' : v ≠ .settled := by
    rintro rfl
    cases hlife with
    | stay => exact hne rfl
    | finalize hv => rcases hv with heq | ⟨c, heq⟩ <;> cases heq
  exact (hlife.move_fits (fun h => absurd h hne) (hst id v hv hv')).2

structure Numbering (s : Sys) : Prop where
  sound : s.Sound
  tallied : s.Tallied
  standing : s.Standing

theorem numbering_run {ok : Sys → Act → Prop} {clock : ℕ} {tr : List Act}
    (h : Run (step cfg) ok (init cfg clock) tr s) : s.Numbering :=
  h.invariant ⟨sound_init clock, tallied_init clock, standing_init clock⟩ fun _ _ _ hn _ hstep =>
    ⟨sound_step hn.sound (step_cases hstep), tallied_step hn.tallied hn.sound (step_cases hstep),
      standing_step hn.standing hn.sound (step_cases hstep)⟩

theorem Place.exists_record {v : Place} {x : Option CallRecord} (h : v.fits (x.map (·.state)))
    (hv : v = .pending ∨ v = .hand ∨ ∃ st, v = .attempt st) : ∃ r, x = some r := by
  rcases hv with rfl | rfl | ⟨st, rfl⟩
  · obtain ⟨r, hr, -⟩ := Option.map_eq_some_iff.mp h
    exact ⟨r, hr⟩
  · obtain ⟨r, hr, -⟩ := Option.map_eq_some_iff.mp h
    exact ⟨r, hr⟩
  · obtain ⟨r, hr, -⟩ := fits_some h
    exact ⟨r, hr⟩

/-- The record of a call that is in the queue or was dispatched bears the number of the
attempt the call is at as long as the call was pushed once only. -/
theorem record_attempt_iff {clock : ℕ} {tr : List Act} (h : Run (step cfg) Always (init cfg clock) tr s)
    (hn : s.Dials id n) : ∃ r, s.sh.store.get id = some r ∧ (r.attempt = n ↔ s.pushes id = 1) := by
  obtain ⟨hs, ht, hst⟩ := numbering_run h
  obtain ⟨v, hv, hplace⟩ : ∃ v, s.At id v ∧ (v = .pending ∨ v = .hand ∨ ∃ st, v = .attempt st) := by
    rcases hn.at with hat | hat | ⟨st, hat⟩
    · exact ⟨_, hat, Or.inl rfl⟩
    · exact ⟨_, hat, Or.inr (Or.inl rfl)⟩
    · exact ⟨_, hat, Or.inr (Or.inr ⟨st, rfl⟩)⟩
  have hv' : v ≠ .settled := by rcases hplace with rfl | rfl | ⟨st, rfl⟩ <;> exact fun h => by cases h
  obtain ⟨r, hr⟩ := Place.exists_record (hst id v hv hv') hplace
  have htally := ht.dials id n hn r hr
  refine ⟨r, hr, ?_⟩
  omega

/-- While the first attempt rings the record bears its number. -/
theorem record_attempt_ringing :
    ∃ s, exec (step redialAtOnce) (init redialAtOnce 0) ringing = some s ∧ s.Dials (callId 0) 1 ∧
      s.pushes (callId 0) = 1 ∧ ∃ r, s.sh.store.get (callId 0) = some r ∧ r.attempt = 1 := by
  obtain ⟨s, a, hs, ha, hown, he, hpush⟩ : ∃ s a, exec (step redialAtOnce) (init redialAtOnce 0) ringing =
        some s ∧ s.attempts[0]? = some a ∧ a.owns (callId 0) = true ∧ a.entry.attempt = 1 ∧
      s.pushes (callId 0) = 1 := ⟨_, _, rfl, rfl, by decide, rfl, by decide⟩
  have hdials : s.Dials (callId 0) 1 := he ▸ .attempt ha hown
  obtain ⟨r, hr, hiff⟩ := record_attempt_iff (run_of_exec hs) hdials
  exact ⟨s, hs, hdials, hpush, r, hr, hiff.mpr hpush⟩

/-- After a busy retry the queue has the second attempt, and the record says the first. -/
theorem record_attempt_stale :
    ∃ s, exec (step redialAtOnce) (init redialAtOnce 0) (ringing ++ busyRing) = some s ∧
      s.Dials (callId 0) 2 ∧ (s.sh.store.get (callId 0)).map (fun r => (r.state, r.attempt)) = some (.queued, 1) := by
  obtain ⟨s, e, hs, hpend, hid, he, hrec⟩ : ∃ s e, exec (step redialAtOnce) (init redialAtOnce 0)
        (ringing ++ busyRing) = some s ∧ s.sh.queue.pending = [e] ∧ e.callId = callId 0 ∧ e.attempt = 2 ∧
      (s.sh.store.get (callId 0)).map (fun r => (r.state, r.attempt)) = some (.queued, 1) :=
    ⟨_, _, rfl, rfl, rfl, rfl, rfl⟩
  exact ⟨s, hs, he ▸ .pending (hpend ▸ List.mem_singleton_self e) hid, hrec⟩

end Sys

end Kutsu
