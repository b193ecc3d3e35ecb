import Kutsu.Proofs.Life

/-! Every step of the engine is, for every call, a step in its life. -/

namespace Kutsu

/-- A task writes no record but its own call's, and only while it has the call. -/
theorem Stage.Step.target {cfg : ServerConfig} {sh : Shared} {tok : Token} {a : Attempt}
    {input : RunInput} {p q : Stage} {eff : Effect}
    {id : CallId} (h : Stage.Step cfg sh tok a input p q eff) (ht : eff.target = some id) :
    (a.id == id && p.owns) = true := by
  have hown : ∀ {b : Bool}, a.id = id → b = true → (a.id == id && b) = true := by
    rintro b rfl rfl
    simp
  cases h with
  | requeueState | answered => exact hown (Option.some.inj ht) rfl
  | talking he =>
    rcases he with rfl | ⟨q, rfl⟩ | ⟨op, rfl, hop⟩
    · cases ht
    · cases ht
    · refine hown ?_ rfl
      rcases hop with ⟨x, rfl⟩ | ⟨x, rfl⟩ | ⟨x, rfl⟩ | ⟨x, rfl⟩ <;> exact Option.some.inj ht
  | finalize c => exact hown (Option.some.inj ht) rfl
  | persist he => rcases he with rfl | ⟨rec, rfl⟩ <;> cases ht
  | panic hi hs => split_ifs at ht <;> cases ht
  | _ => cases ht

theorem Placing.target {p : Placing} {now : ℕ} {pc : PlacePc} {eff : Effect} {id : CallId}
    (h : p.next now = some (pc, eff)) (ht : eff.target = some id) : p.owes id = true := by
  unfold next at h
  split at h <;> rename_i hpc
  all_goals cases h
  · obtain rfl := Option.some.inj ht
    simp [owes, hpc, PlacePc.unpushed, StoreOp.target, record]
  all_goals cases ht

theorem Ender.target {d : Ender} {sh : Shared} {pc : EndPc} {eff : Effect} {id : CallId}
    (h : d.next sh = some (pc, eff)) (ht : eff.target = some id) : d.owns id = true := by
  unfold next at h
  split at h <;> rename_i hpc
  all_goals cases h
  · obtain rfl := Option.some.inj ht
    simp [owns, hpc, EndPc.finalizes, Closing.ending]
  all_goals cases ht

theorem StoreOp.Amends.get_apply {op : StoreOp} {id : CallId} (h : op.Amends id) (s : CallStore) :
    ∃ f : CallRecord → CallRecord, (∀ r, (f r).state = r.state ∧ (f r).disposition = r.disposition) ∧
      (op.apply s).get id = (s.get id).map f := by
  have hmod : ∀ f : CallRecord → CallRecord, (s.modify id f).get id = (s.get id).map f := fun f => by
    rw [CallStore.get_modify, if_pos rfl]
  rcases h with ⟨x, rfl⟩ | ⟨x, rfl⟩ | ⟨x, rfl⟩ | ⟨x, rfl⟩
  all_goals
    refine ⟨_, ?_, hmod _⟩
    exact fun _ => ⟨rfl, rfl⟩

theorem CallStore.get_setState (s : CallStore) (id : CallId) (st : CallState) :
    (s.setState id st).get id = (s.get id).map fun r => { r with state := st } := by
  rw [setState, get_modify, if_pos rfl]

theorem CallStore.finalized (s : CallStore) (e : Ending) :
    ((StoreOp.finalize e).apply s).get e.id = (s.get e.id).map e.mark ∨
      Evicted ((s.get e.id).map e.mark) (((StoreOp.finalize e).apply s).get e.id) := by
  have hget := CallStore.get_finalize s e e.id
  rwa [get_modify, if_pos rfl] at hget

theorem Stage.Step.life {act : Act} {cfg : ServerConfig} {sh : Shared} {tok : Token} {a : Attempt}
    {input : RunInput} {p q : Stage} {eff : Effect}
    (h : Stage.Step cfg sh tok a input p q eff) (hp : p.owns = true) (hq : q.owns = true) :
    Life act (.attempt p) (sh.store.get a.id) (.attempt q) ((sh.apply eff).store.get a.id) := by
  cases h with
  | start hq => rcases hq with rfl | rfl <;> exact .quiet fun _ h => h
  | preflight hq => rcases hq with rfl | rfl <;> exact .quiet fun _ h => h
  | cancelled => exact .quiet fun _ h => Or.inl h
  | report => exact .quiet fun _ h => h
  | unreported hr hq | reportWake hq =>
    rcases hq with rfl | rfl
    · exact .quiet fun _ h => h
    · exact .quiet fun _ h => Or.inl h
  | invite | requeueCount => exact .quiet fun _ h => h
  | ringing hq =>
    rcases hq with rfl | rfl | rfl
    · exact .quiet fun _ h => h
    · exact .quiet fun _ h => h
    · exact .quiet fun _ h => Or.inl h
  | busy => exact .quiet fun _ h => h
  | requeueState =>
    have hget := CallStore.get_setState sh.store a.id .queued
    exact hget ▸ .setState (Or.inr (Or.inl ⟨rfl, rfl, rfl⟩))
  | answered =>
    have hget := CallStore.get_setState sh.store a.id .inProgress
    exact hget ▸ .setState (Or.inr (Or.inr ⟨rfl, rfl, rfl⟩))
  | talking he =>
    rcases he with rfl | ⟨q, rfl⟩ | ⟨op, rfl, hop⟩
    · exact .stay (Or.inl rfl)
    · exact .stay (Or.inl rfl)
    · obtain ⟨f, hf, hget⟩ := hop.get_apply sh.store
      exact hget ▸ .amend hf
  | hungUp => exact .quiet fun _ h => h
  | resolve => exact .quiet fun _ h => Or.inr h
  | panic hi hs => cases hq
  | requeuePush t | finalize c => cases hq
  | bump d hq' => cases hp
  | persist he => cases hp
  | _ => cases hp

theorem Stage.Step.gives_up {cfg : ServerConfig} {sh : Shared} {tok : Token} {a : Attempt}
    {input : RunInput} {p q : Stage} {eff : Effect}
    (h : Stage.Step cfg sh tok a input p q eff) (hp : p.owns = true) (hq : q.owns = false) :
    (p = .requeuePush ∧ ∃ t, eff = .push (a.retryEntry t)) ∨
    (∃ c : Closing, p = .finalizing c.cancelled ∧ eff = .finalize (c.ending a.id sh.clock)) ∨
    (input = .panic ∧ eff = .abandon a.id) := by
  cases h with
  | start hq' | preflight hq' | unreported hr hq' | reportWake hq' =>
    rcases hq' with rfl | rfl <;> cases hq
  | ringing hq' => rcases hq' with rfl | rfl | rfl <;> cases hq
  | requeuePush t => exact Or.inl ⟨rfl, t, rfl⟩
  | finalize c => exact Or.inr (Or.inl ⟨c, rfl, rfl⟩)
  | panic hi hs => exact Or.inr (Or.inr ⟨hi, if_pos hp⟩)
  | talking => cases hq
  | bump | persist => cases hp
  | _ => contradiction

namespace Sys

variable {cfg : ServerConfig} {act : Act} {s s' : Sys} {id : CallId} {v w : Place}

theorem hand_of_look {p q : DispPc} (h : Look cfg s.sh p q) : p.inHand id = false := by
  cases h <;> rfl

theorem life_place (hc : s.Custody) (hc' : s'.Custody) {p : Placing}
    (hid : p.entry.callId = callId s.sh.seq) (hpc : p.pc = .insert)
    (hs' : s' = { s with sh := s.sh.apply .mint, placing := s.placing ++ [p] })
    (hv : s.At id v) (hw : s'.At id w) :
    Life act v (s.sh.store.get id) w (s'.sh.store.get id) := by
  subst hs'
  by_cases heq : p.entry.callId = id
  · have hnew : ¬ s.Minted id := by
      rintro ⟨n, hn, hn'⟩
      have := callId_injective (hn'.trans (heq.symm.trans hid))
      omega
    have hlast : (s.placing ++ [p])[s.placing.length]? = some p := List.getElem?_concat_length
    refine life_of_move hc hc' hv hw (.unminted hnew) (.placing hlast ?_) (hpc ▸ .mint)
    simp [Placing.owes, heq, hpc, PlacePc.unpushed]
  · refine life_of_keep hc' hw (hv.keep ?_ ?_ ?_ ?_ ?_ ?_ ?_) (Or.inl rfl)
    · rintro ⟨n, hn, rfl⟩
      rcases Nat.lt_succ_iff_lt_or_eq.mp hn with hlt | rfl
      · exact ⟨n, hlt, rfl⟩
      · exact absurd hid heq
    · exact fun i q hq _ => Counting.getElem?_append_some hq _
    · exact fun e he _ => he
    · exact fun h => h
    · exact fun _ _ h _ => h
    · exact fun _ _ h _ => h
    · exact List.prefix_append _ _

theorem life_placing (hc : s.Custody) (hc' : s'.Custody) {i : ℕ} {p : Placing} {pc : PlacePc}
    {eff : Effect} (hp : s.placing[i]? = some p) (hn : p.next s.sh.clock = some (pc, eff))
    (hs' : s' = { s with sh := s.sh.apply eff, placing := s.placing.set i { p with pc } })
    (hpush : ∀ e, eff = .push e → ∀ e' ∈ s.sh.queue.pending, e'.callId ≠ e.callId)
    (hv : s.At id v) (hw : s'.At id w) :
    Life act v (s.sh.store.get id) w (s'.sh.store.get id) := by
  subst hs'
  have hlt := (List.getElem?_eq_some_iff.mp hp).1
  cases ho : p.owes id with
  | true =>
    have hv₀ := At.placing hp ho
    simp only [Placing.owes, Bool.and_eq_true, beq_iff_eq] at ho
    obtain ⟨rfl, hun⟩ := ho
    have hplaced : ∀ {s' : Sys} {q : Placing}, s'.placing[i]? = some q → q.entry = p.entry →
        q.pc.unpushed = true → s'.At p.entry.callId (.placing q.pc) := by
      intro s' q hq he hun
      exact .placing hq (by simp [Placing.owes, he, hun])
    unfold Placing.next at hn
    split at hn <;> rename_i hpc
    all_goals rw [hpc] at hv₀ hun
    all_goals cases hn
    · refine life_of_move hc hc' hv hw hv₀ (hplaced (List.getElem?_set_self hlt) rfl rfl) ?_
      have hget : (s.sh.store.insert (p.record s.sh.clock)).get p.entry.callId =
          some (p.record s.sh.clock) := by
        rw [CallStore.get_insert]; exact if_pos rfl
      exact hget ▸ .insert ⟨rfl, rfl⟩
    · exact life_of_move hc hc' hv hw hv₀ (hplaced (List.getElem?_set_self hlt) rfl rfl) .count
    · refine life_of_move hc hc' hv hw hv₀ (.pending (e := p.entry) ?_ rfl) .push
      exact (MemQueue.push_perm (hpush _ rfl)).mem_iff.mpr List.mem_cons_self
    · cases hun
  | false =>
    have htarget : eff.target ≠ some id := fun ht => by
      rw [Placing.target hn ht] at ho; cases ho
    refine life_of_keep hc' hw (hv.keep ?_ ?_ ?_ ?_ ?_ ?_ ?_) (s.sh.get_apply_ne htarget)
    · rintro ⟨n, hn', rfl⟩
      rw [show (s.sh.apply eff).seq = s.sh.seq from Shared.seq_apply (Placing.plain hn)] at hn'
      exact ⟨n, hn', rfl⟩
    · exact fun j q hq hoq => Counting.getElem?_set_of_not hp ho hq hoq _
    · exact fun e he _ => Shared.pending_apply (Placing.plain hn) hpush he
    · exact fun h => h
    · exact fun _ _ h _ => h
    · exact fun _ _ h _ => h
    · exact s.sh.log_prefix eff

theorem life_still (hc' : s'.Custody) (hw : s'.At id w) (hv : s.At id v)
    (hseq : s'.sh.seq = s.sh.seq) (hqueue : s'.sh.queue = s.sh.queue)
    (hlog : s.sh.log <+: s'.sh.log) (hhand : s.disp.inHand id = false)
    (hplacing : s'.placing = s.placing) (hatt : s'.attempts = s.attempts)
    (hend : s'.enders = s.enders) (hstore : s'.sh.store = s.sh.store) :
    Life act v (s.sh.store.get id) w (s'.sh.store.get id) := by
  refine life_of_keep hc' hw (hv.keep ?_ ?_ ?_ ?_ ?_ ?_ hlog) (Or.inl (by rw [hstore]))
  · rw [Minted, hseq]; exact fun h => h
  · rw [hplacing]; exact fun _ _ h _ => h
  · rw [hqueue]; exact fun _ he _ => he
  · rw [hhand]; exact fun h => by cases h
  · rw [hatt]; exact fun _ _ h _ => h
  · rw [hend]; exact fun _ _ h _ => h

theorem life_hand (hc : s.Custody) (hc' : s'.Custody) (hal : s.Aligned) {tok : Token} {st : Stage}
    {ph : Phase} (hd : s.disp.hand = some (tok, st)) (hno : s.disp.inHand id = false)
    (hatt : s'.attempts = s.setPhase tok ph) (hph : ph.stage.owns = true)
    (hseq : s'.sh.seq = s.sh.seq) (hqueue : s'.sh.queue = s.sh.queue) (hlog : s'.sh.log = s.sh.log)
    (hplacing : s'.placing = s.placing) (hend : s'.enders = s.enders)
    (hother : s.idOf tok ≠ id → s'.sh.store.get id = s.sh.store.get id)
    (hlife : s.idOf tok = id →
      Life act (.attempt st) (s.sh.store.get id) (.attempt ph.stage) (s'.sh.store.get id))
    (hv : s.At id v) (hw : s'.At id w) :
    Life act v (s.sh.store.get id) w (s'.sh.store.get id) := by
  obtain ⟨a, ha, rfl⟩ := hal.hand tok st hd
  have hlt := (List.getElem?_eq_some_iff.mp ha).1
  have hown : a.phase.stage.owns = true := DispPc.owns_of_hand hd
  rw [idOf_eq ha] at hother hlife
  rw [setPhase_eq ha] at hatt
  by_cases hid : a.id = id
  · have hset : s'.attempts[tok]? = some { a with phase := ph } := by
      rw [hatt, List.getElem?_set_self hlt]
    have hown' : Attempt.owns id { a with phase := ph } = true :=
      Bool.and_eq_true_iff.mpr ⟨beq_iff_eq.mpr hid, hph⟩
    exact life_of_move hc hc' hv hw (.attempt ha (by simp [Attempt.owns, hid, hown]))
      (.attempt hset hown') (hlife hid)
  · have hnot : a.owns id = false := by simp [Attempt.owns, hid]
    refine life_of_keep hc' hw (hv.keep ?_ ?_ ?_ ?_ ?_ ?_ ?_) (Or.inl (hother hid))
    · rw [Minted, hseq]; exact fun h => h
    · rw [hplacing]; exact fun _ _ h _ => h
    · rw [hqueue]; exact fun _ he _ => he
    · rw [hno]; exact fun h => by cases h
    · rw [hatt]; exact fun j b hb hob => Counting.getElem?_set_of_not ha hnot hb hob _
    · rw [hend]; exact fun _ _ h _ => h
    · rw [hlog]

theorem life_dispatch (hc : s.Custody) (hc' : s'.Custody) (hal : s.Aligned)
    (h : Dispatch cfg s s') (hv : s.At id v) (hw : s'.At id w) :
    Life act v (s.sh.store.get id) w (s'.sh.store.get id) := by
  cases h with
  | look hl =>
    exact life_still hc' hw hv rfl rfl (List.prefix_refl _) (hand_of_look hl) rfl rfl rfl rfl
  | @pop now probe e rest hd hq =>
    have hpend := (MemQueue.popEligible_some hq).2
    by_cases hid : e.callId = id
    · refine life_of_move hc hc' hv hw (.pending (e := e) ?_ hid) (.hand (beq_iff_eq.mpr hid)) .pop
      rw [hpend]; exact List.mem_cons_self
    · refine life_of_keep hc' hw (hv.keep ?_ ?_ ?_ ?_ ?_ ?_ ?_) (Or.inl rfl)
      · exact fun h => h
      · exact fun _ _ h _ => h
      · intro e' he' hid'
        rw [hpend] at he'
        rcases List.mem_cons.mp he' with rfl | he'
        · exact absurd hid' hid
        · exact he'
      · rw [hd]; exact fun h => by cases h
      · exact fun _ _ h _ => h
      · exact fun _ _ h _ => h
      · exact List.prefix_append _ _
  | @register e now probe hd =>
    obtain ⟨-, hseq, hget, hqueue, -⟩ := s.sh.rewired_apply (show (Effect.register e.callId).wires = true from rfl)
    by_cases hid : e.callId = id
    · refine life_of_move hc hc' hv hw (.hand (by rw [hd]; exact beq_iff_eq.mpr hid))
        (.attempt (List.getElem?_concat_length ..) ?_) ?_
      · simp [Attempt.owns, Attempt.id, hid, Phase.stage, Stage.owns]
      · dsimp only
        rw [hget]
        exact .register
    · refine life_of_keep hc' hw (hv.keep ?_ ?_ ?_ ?_ ?_ ?_ ?_) (Or.inl (by dsimp only; rw [hget]))
      · rw [Minted, hseq]; exact fun h => h
      · exact fun _ _ h _ => h
      · rw [hqueue]; exact fun _ he _ => he
      · rw [hd]; exact fun h => absurd (beq_iff_eq.mp h) hid
      · exact fun _ _ h _ => Counting.getElem?_append_some h _
      · exact fun _ _ h _ => h
      · exact s.sh.log_prefix _
  | @claim tok now probe hd =>
    have hhand : s.disp.hand = some (tok, .registered) := by rw [hd]; rfl
    exact life_hand hc hc' hal hhand (by rw [hd]; rfl) rfl rfl rfl rfl rfl rfl rfl
      (fun _ => rfl) (fun _ => .quiet fun _ h => h) hv hw
  | mark hd =>
    exact life_still hc' hw hv rfl rfl (List.prefix_refl _) (by rw [hd]; rfl) rfl rfl rfl rfl
  | @setRinging tok hd =>
    refine life_hand hc hc' hal (by rw [hd]; rfl) (by rw [hd]; rfl) rfl rfl rfl rfl rfl rfl rfl
      (fun hne => ?_) (fun heq => ?_) hv hw
    · exact (CallStore.get_modify ..).trans (if_neg (Ne.symm hne))
    · subst heq
      have hget := CallStore.get_setState s.sh.store (s.idOf tok) .ringing
      exact hget ▸ .setState (Or.inl ⟨rfl, rfl, rfl⟩)
  | @spawn tok hd =>
    have hhand : s.disp.hand = some (tok, .rung) := by rw [hd]; rfl
    exact life_hand hc hc' hal hhand (by rw [hd]; rfl) rfl rfl rfl rfl rfl rfl rfl
      (fun _ => rfl) (fun _ => .quiet fun _ h => h) hv hw
  | wake hd hp =>
    exact life_still hc' hw hv rfl rfl (List.prefix_refl _) (by rw [hd]; rfl) rfl rfl rfl rfl

theorem life_run (hc : s.Custody) (hc' : s'.Custody) {tok : Token} {input : RunInput} {a : Attempt}
    {phase : Phase} {eff : Effect} (ha : s.attempts[tok]? = some a)
    (hn : a.next cfg s.sh tok input = some (phase, eff))
    (hs' : s' = { s with sh := s.sh.apply eff, attempts := s.attempts.set tok { a with phase } })
    (hpush : ∀ e, eff = .push e → ∀ e' ∈ s.sh.queue.pending, e'.callId ≠ e.callId)
    (hact : input = .panic → act.panics) (hv : s.At id v) (hw : s'.At id w) :
    Life act v (s.sh.store.get id) w (s'.sh.store.get id) := by
  subst hs'
  have hstep := Attempt.next_step hn
  have hlt := (List.getElem?_eq_some_iff.mp ha).1
  cases ho : a.owns id with
  | true =>
    have hv₀ := At.attempt ha ho
    simp only [Attempt.owns, Bool.and_eq_true, beq_iff_eq] at ho
    obtain ⟨rfl, hp⟩ := ho
    cases hq : phase.stage.owns with
    | true =>
      refine life_of_move hc hc' hv hw hv₀
        (.attempt (List.getElem?_set_self hlt) ?_) (hstep.life hp hq)
      simp only [Attempt.owns, Attempt.id, hq, beq_self_eq_true, Bool.and_true]
    | false =>
      rcases hstep.gives_up hp hq with ⟨hst, t, rfl⟩ | ⟨c, hst, rfl⟩ | ⟨rfl, rfl⟩
      · refine life_of_move hc hc' hv hw hv₀ (.pending (e := a.retryEntry t) ?_ rfl)
          (hst ▸ .repush)
        exact (MemQueue.push_perm (hpush _ rfl)).mem_iff.mpr List.mem_cons_self
      · exact life_of_move hc hc' hv hw hv₀
          (.settled (List.mem_append_right _ (List.mem_singleton.mpr rfl)) (beq_self_eq_true a.id))
          (.finalize (Or.inr ⟨_, congrArg _ hst⟩)
            (CallStore.finalized s.sh.store (c.ending a.id s.sh.clock)))
      · exact life_of_move hc hc' hv hw hv₀
          (.settled (List.mem_append_right _ (List.mem_singleton.mpr rfl)) (beq_self_eq_true a.id))
          (.abandon (hact rfl))
  | false =>
    have htarget : eff.target ≠ some id := fun ht => by
      have howns := hstep.target ht
      rw [show (a.id == id && a.phase.stage.owns) = a.owns id from rfl, ho] at howns
      cases howns
    refine life_of_keep hc' hw (hv.keep ?_ ?_ ?_ ?_ ?_ ?_ ?_) (s.sh.get_apply_ne htarget)
    · rw [Minted, show (s.sh.apply eff).seq = s.sh.seq from Shared.seq_apply hstep.plain]
      exact fun h => h
    · exact fun _ _ h _ => h
    · exact fun e he _ => Shared.pending_apply hstep.plain hpush he
    · exact fun h => h
    · exact fun j b hb hob => Counting.getElem?_set_of_not ha ho hb hob _
    · exact fun _ _ h _ => h
    · exact s.sh.log_prefix eff

theorem life_endCall (hc : s.Custody) (hc' : s'.Custody) (i : CallId)
    (hs' : s' = { s with sh := s.sh.apply (s.sh.endCall i).2
                         enders := s.enders ++ [⟨i, (s.sh.endCall i).1⟩] })
    (hv : s.At id v) (hw : s'.At id w) :
    Life act v (s.sh.store.get id) w (s'.sh.store.get id) := by
  have hkeep : ∀ (pc : EndPc) (eff : Effect), s.sh.endCall i = (pc, eff) →
      (s.sh.apply eff).seq = s.sh.seq → (s.sh.apply eff).store = s.sh.store →
      (∀ e ∈ s.sh.queue.pending, e.callId = id → e ∈ (s.sh.apply eff).queue.pending) →
      Life act v (s.sh.store.get id) w (s'.sh.store.get id) := by
    intro pc eff heq hseq hstore hqueue
    subst hs'
    rw [heq] at hc' hw ⊢
    refine life_of_keep hc' hw (hv.keep ?_ ?_ hqueue ?_ ?_ ?_ ?_) (Or.inl (by dsimp only; rw [hstore]))
    · rw [Minted, hseq]; exact fun h => h
    · exact fun _ _ h _ => h
    · exact fun h => h
    · exact fun _ _ h _ => h
    · exact fun _ _ h _ => Counting.getElem?_append_some h _
    · exact s.sh.log_prefix eff
  rcases s.sh.endCall_cases i with ⟨e, rest, hq, h⟩ | ⟨tok, -, -, h⟩ | ⟨-, -, h⟩
  · obtain ⟨rfl, hperm⟩ := MemQueue.remove_some hq
    by_cases hid : e.callId = id
    · subst hs' hid
      rw [h] at hc' hw ⊢
      refine life_of_move hc hc' hv hw (.pending (e := e) ?_ rfl)
        (.ender List.getElem?_concat_length ?_) .remove
      · exact hperm.mem_iff.mpr List.mem_cons_self
      · simp [Ender.owns, EndPc.finalizes]
    · refine hkeep _ _ h rfl rfl fun e' he' hid' => ?_
      rcases List.mem_cons.mp (hperm.mem_iff.mp he') with rfl | he'
      · exact absurd hid' hid
      · exact he'
  · exact hkeep _ _ h rfl rfl fun _ he _ => he
  · exact hkeep _ _ h rfl rfl fun _ he _ => he

theorem life_ender (hc : s.Custody) (hc' : s'.Custody) {i : ℕ} {d : Ender} {pc : EndPc}
    {eff : Effect} (hd : s.enders[i]? = some d) (hn : d.next s.sh = some (pc, eff))
    (hs' : s' = { s with sh := s.sh.apply eff, enders := s.enders.set i { d with pc } })
    (hv : s.At id v) (hw : s'.At id w) :
    Life act v (s.sh.store.get id) w (s'.sh.store.get id) := by
  subst hs'
  cases ho : d.owns id with
  | true =>
    have hv₀ := At.ender hd ho
    simp only [Ender.owns, Bool.and_eq_true, beq_iff_eq] at ho
    obtain ⟨rfl, hfin⟩ := ho
    unfold Ender.next at hn
    split at hn <;> rename_i hpc
    all_goals rw [hpc] at hfin
    all_goals cases hn
    · exact life_of_move hc hc' hv hw hv₀
        (.settled (List.mem_append_right _ (List.mem_singleton.mpr rfl)) (beq_self_eq_true d.id))
        (.finalize (Or.inl rfl)
          (CallStore.finalized s.sh.store (queuedClosing.ending d.id s.sh.clock)))
    all_goals cases hfin
  | false =>
    have htarget : eff.target ≠ some id := fun ht => by
      rw [Ender.target hn ht] at ho; cases ho
    refine life_of_keep hc' hw (hv.keep ?_ ?_ ?_ ?_ ?_ ?_ ?_) (s.sh.get_apply_ne htarget)
    · rw [Minted, show (s.sh.apply eff).seq = s.sh.seq from Shared.seq_apply (Ender.plain hn)]
      exact fun h => h
    · exact fun _ _ h _ => h
    · refine fun e he _ => Shared.pending_apply (Ender.plain hn) ?_ he
      rintro e' rfl
      exact absurd hn Ender.not_push
    · exact fun h => h
    · exact fun _ _ h _ => h
    · exact fun j b hb hob => Counting.getElem?_set_of_not hd ho hb hob _
    · exact s.sh.log_prefix eff

theorem life_step (hc : s.Custody) (hal : s.Aligned) (h : Step cfg s act s')
    (hv : s.At id v) (hw : s'.At id w) : Life act v (s.sh.store.get id) w (s'.sh.store.get id) := by
  have hc' := custody_step hc hal h
  cases h with
  | tick now =>
    obtain rfl : v = w := at_unique hc' (hv.keep (fun h => h) (fun _ _ h _ => h) (fun _ h _ => h)
      (fun h => h) (fun _ _ h _ => h) (fun _ _ h _ => h) (List.prefix_refl _)) hw
    exact .stay (Or.inl rfl)
  | place => exact life_place hc hc' rfl rfl rfl hv hw
  | placing hp hn hl =>
    exact life_placing hc hc' hp hn rfl (placing_pushes_fresh hc hp hn) hv hw
  | dispatch h => exact life_dispatch hc hc' hal h hv hw
  | timer hd ht =>
    exact life_still hc' hw hv rfl rfl (List.prefix_refl _) (by rw [hd]; rfl) rfl rfl rfl rfl
  | run ha hn hl =>
    have hpush := attempt_pushes_fresh hc ha (Attempt.next_step hn) rfl
    exact life_run hc hc' ha hn rfl hpush (fun hi => by rw [hi]; rfl) hv hw
  | endCall i hl => exact life_endCall hc hc' i rfl hv hw
  | ender hd hn => exact life_ender hc hc' hd hn rfl hv hw

end Sys

end Kutsu
