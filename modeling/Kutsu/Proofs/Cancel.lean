import Kutsu.Proofs.Channels
import Kutsu.Proofs.Park

/-! An accepted `end_call`. The attempt that was signalled looks at its channel in the
preflight and once the call is answered, but neither when it sends the INVITE nor when a
busy answer is put back in the queue. -/

namespace Kutsu

open Runs

namespace Stage

def deaf : Stage → Bool
  | .release | .slotWake | .gone => true
  | _ => false

def leaving : Stage → Bool
  | .bumping _ | .settled => true
  | .guardDrop how | .receiverDrop how => how ≠ .requeued
  | _ => false

/-- From the decision to dial a busy callee again to the end of the attempt. -/
def requeuing : Stage → Bool
  | .requeueState | .requeueCount | .requeuePush | .requeueWake => true
  | .guardDrop how | .receiverDrop how => how = .requeued
  | _ => false

theorem owns_or_out (st : Stage) :
    st.requeuing = true ∨ st.owns = true ∨ st.leaving = true ∨ st.deaf = true := by
  cases st with
  | guardDrop how | receiverDrop how => cases how <;> simp [requeuing, owns, leaving]
  | _ => simp [requeuing, owns, leaving, deaf]

section Step

variable {cfg : ServerConfig} {sh : Shared} {tok : Token} {a : Attempt} {input : RunInput}
  {p q : Stage} {eff : Effect}

theorem Step.of_deaf (h : Stage.Step cfg sh tok a input p q eff) (hq : q.deaf = true) :
    p.deaf = true ∨ eff = .dropReceiver tok := by
  cases h with
  | receiverDrop => exact Or.inr rfl
  | release | slotWake => exact Or.inl rfl
  | start h | preflight h | reportWake h | bump d h => rcases h with rfl | rfl <;> cases hq
  | unreported hr h => rcases h with rfl | rfl <;> cases hq
  | ringing h => rcases h with rfl | rfl | rfl <;> cases hq
  | _ => cases hq

theorem Step.of_leaving (h : Stage.Step cfg sh tok a input p q eff) (hq : q.leaving = true) :
    p.leaving = true ∨ ∃ o ∈ sh.logs eff, o.settles a.id = true := by
  cases h with
  | finalize c => exact Or.inr ⟨_, List.mem_singleton.mpr rfl, beq_self_eq_true a.id⟩
  | bump | countAbort | persist => exact Or.inl rfl
  | guardDrop => exact Or.inl hq
  | panic hi hs =>
    cases hp : p.owns with
    | true => exact Or.inr ⟨.abandoned a.id, List.mem_singleton.mpr rfl, beq_self_eq_true a.id⟩
    | false =>
      left
      cases p <;> first | rfl | (cases hp; done) | cases hs
  | start h | preflight h | reportWake h => rcases h with rfl | rfl <;> cases hq
  | unreported hr h => rcases h with rfl | rfl <;> cases hq
  | ringing h => rcases h with rfl | rfl | rfl <;> cases hq
  | _ => cases hq

theorem Step.of_requeuing (h : Stage.Step cfg sh tok a input p q eff) (hq : q.requeuing = true) :
    p.requeuing = true ∨ (p = .ringing ∧ a.retriesBusy cfg input = true) := by
  cases h with
  | busy h => exact Or.inr ⟨rfl, h⟩
  | requeueState | requeueCount | requeuePush | requeueWake => exact Or.inl rfl
  | guardDrop => exact Or.inl hq
  | start h | preflight h | reportWake h | bump d h => rcases h with rfl | rfl <;> cases hq
  | unreported hr h => rcases h with rfl | rfl <;> cases hq
  | ringing h => rcases h with rfl | rfl | rfl <;> cases hq
  | _ => cases hq

end Step

end Stage

namespace Sys

variable {cfg : ServerConfig} {act : Act} {s s' : Sys} {tok : Token} {a : Attempt} {id : CallId}

/-- Who a cancel channel belongs to, and what has become of the attempt it belongs to. -/
structure Wired (s : Sys) : Prop where
  registered : ∀ id tok, s.sh.cancels.lookup id = some tok →
    ∃ a, s.attempts[tok]? = some a ∧ a.id = id
  sending : ∀ (i : ℕ) (d : Ender) (tok : Token), s.enders[i]? = some d → d.pc = .send tok →
    ∃ a, s.attempts[tok]? = some a ∧ a.id = d.id
  deaf : ∀ (tok : Token) (a : Attempt), s.attempts[tok]? = some a → a.phase.stage.deaf = true →
    s.sh.hears tok = false
  leaving : ∀ (tok : Token) (a : Attempt), s.attempts[tok]? = some a → a.phase.stage.leaving = true →
    ∃ o ∈ s.sh.log, o.settles a.id = true

theorem wired_init (clock : ℕ) : (init cfg clock).Wired :=
  ⟨(fun _ _ h => by cases h), (fun _ _ _ h => by cases h), (fun _ _ h => by cases h), fun _ _ h => by cases h⟩

theorem hears_eq {c : Chan} (h : s.sh.chans[tok]? = some c) : s.sh.hears tok = c.receiver := by
  rw [Shared.hears, h]
  rfl

theorem wired_step (hw : s.Wired) (hal : s.Aligned) (h : Step cfg s act s') : s'.Wired := by
  have hlog : s.sh.log <+: s'.sh.log := by
    rw [h.log_eq]
    exact List.prefix_append _ _
  have hkeep : ∀ (tok : Token) (a : Attempt), s.attempts[tok]? = some a →
      ∃ a', s'.attempts[tok]? = some a' ∧ a'.id = a.id := by
    intro tok a ha
    obtain ⟨a', ha', ⟨he, -⟩, -⟩ := h.forth hal ha
    exact ⟨a', ha', congrArg PendingEntry.callId he⟩
  refine ⟨?_, ?_, ?_, ?_⟩
  · intro id tok hl
    rcases h.lookup hal hl with hl | ⟨a', ha', hid, -⟩
    · obtain ⟨a, ha, rfl⟩ := hw.registered id tok hl
      exact hkeep tok a ha
    · exact ⟨a', ha', hid⟩
  · intro i d tok hd hpc
    rcases h.sender hd hpc with hd | ⟨-, hl⟩
    · obtain ⟨a, ha, hid⟩ := hw.sending i d tok hd hpc
      rw [← hid]
      exact hkeep tok a ha
    · obtain ⟨a, ha, hid⟩ := hw.registered d.id tok hl
      rw [← hid]
      exact hkeep tok a ha
  · intro tok a' ha' hst
    rcases h.back hal ha' with ⟨a, ha, ⟨he, -⟩, hmoved⟩ | hmade
    · obtain ⟨c, hc⟩ := hal.chan ha
      obtain ⟨c', hc', -, hdeaf⟩ := h.chan hc
      have hold : a.phase.stage.deaf = true → s'.sh.hears tok = false := by
        intro hst
        rw [hears_eq hc']
        exact hdeaf ((hears_eq hc).symm.trans (hw.deaf tok a ha hst))
      cases hmoved with
      | still heq => exact hold (heq ▸ hst)
      | handed hact hh => rcases hh.target with h | h | h <;> rw [h] at hst <;> cases hst
      | run hact hstep hn hsh =>
        rcases hstep.of_deaf hst with hst | rfl
        · exact hold hst
        · rw [hsh, Shared.hears, Shared.apply, Shared.chan_modify hc, if_pos rfl]
          rfl
    · rw [hmade.phase] at hst
      cases hst
  · intro tok a' ha' hst
    rcases h.back hal ha' with ⟨a, ha, ⟨he, -⟩, hmoved⟩ | hmade
    · have hid : a'.id = a.id := congrArg PendingEntry.callId he
      have hold : a.phase.stage.leaving = true → ∃ o ∈ s'.sh.log, o.settles a'.id = true := by
        intro hst
        obtain ⟨o, ho, hsettles⟩ := hw.leaving tok a ha hst
        exact ⟨o, hlog.subset ho, hid ▸ hsettles⟩
      cases hmoved with
      | still heq => exact hold (heq ▸ hst)
      | handed hact hh => rcases hh.target with h | h | h <;> rw [h] at hst <;> cases hst
      | run hact hstep hn hsh =>
        rcases hstep.of_leaving hst with hst | ⟨o, ho, hsettles⟩
        · exact hold hst
        · refine ⟨o, ?_, hid ▸ hsettles⟩
          rw [hsh, Shared.log_apply]
          exact List.mem_append_right _ ho
    · rw [hmade.phase] at hst
      cases hst

end Sys

/-- The call is put in the queue, taken out for a dial, or dialled. -/
def Obs.takesUp (id : CallId) : Obs → Bool
  | .pushed e => e.callId == id
  | .popped _ e => e.callId == id
  | .dialled i => i == id
  | _ => false

/-- If the first is an accepted `end_call` for a call that is not ended, the second does
not take the call up again. -/
def Obs.Heeds (o o' : Obs) : Prop :=
  ∀ id st, o = .accepted id st → st ≠ some .ended → o'.takesUp id = false

def EndPc.target : EndPc → Option Token
  | .send tok => some tok
  | _ => none

/-- The step goes on dialling: it sends the INVITE, or takes a busy answer for a retry. -/
def Attempt.dialsOn (cfg : ServerConfig) (a : Attempt) (input : RunInput) : Bool :=
  match a.phase.stage, input with
  | .invite, .go => true
  | .ringing, answer => a.retriesBusy cfg answer
  | _, _ => false

/-- An attempt that has been signalled does not go on dialling, and none is signalled that
has already decided on its retry. -/
def Heeding (cfg : ServerConfig) (s : Sys) : Act → Prop
  | .run tok input => ∀ a ∈ s.attempts[tok]?, s.sh.signalOf tok = some .sent →
      a.dialsOn cfg input = false
  | .ender i => ∀ d ∈ s.enders[i]?, ∀ tok ∈ d.pc.target, ∀ a ∈ s.attempts[tok]?,
      a.phase.stage.requeuing = false
  | _ => True

def Effect.promises : Effect → Bool
  | .remove _ _ | .send _ _ => true
  | _ => false

theorem Shared.promises_of_logs {sh : Shared} {eff : Effect} {id : CallId} {st : Option CallState}
    (h : .accepted id st ∈ sh.logs eff) : eff.promises = true := by
  cases eff with
  | remove | send => rfl
  | register i | dropGuard tok i =>
    obtain ⟨t, -, heq⟩ := List.mem_map.mp h
    cases heq
  | _ => simp [logs] at h

theorem Stage.Step.not_promises {cfg : ServerConfig} {sh : Shared} {tok : Token} {a : Attempt}
    {input : RunInput} {p q : Stage} {eff : Effect}
    (h : Stage.Step cfg sh tok a input p q eff) : eff.promises = false := by
  cases h with
  | talking he => rcases he with rfl | ⟨q, rfl⟩ | ⟨op, rfl, -⟩ <;> rfl
  | persist he => rcases he with rfl | ⟨rec, rfl⟩ <;> rfl
  | panic hi hs => split_ifs <;> rfl
  | _ => rfl

theorem Placing.not_promises {p : Placing} {now : ℕ} {pc : PlacePc} {eff : Effect}
    (h : p.next now = some (pc, eff)) : eff.promises = false := by
  unfold next at h
  split at h
  all_goals cases h
  all_goals rfl

theorem Shared.heeds_logs (sh : Shared) (eff : Effect) : (sh.logs eff).Pairwise Obs.Heeds := by
  cases eff with
  | register i | dropGuard tok i =>
    simp only [logs]
    cases sh.cancels.lookup i <;> simp
  | send tok i =>
    simp only [logs]
    split_ifs <;> simp
  | remove | takeSender => simp [logs, Obs.Heeds]
  | _ => simp [logs]

theorem Stage.Step.takesUp {cfg : ServerConfig} {sh : Shared} {tok : Token} {a : Attempt}
    {input : RunInput} {p q : Stage} {eff : Effect} (h : Stage.Step cfg sh tok a input p q eff)
    {o : Obs} (ho : o ∈ sh.logs eff) {id : CallId} (hid : o.takesUp id = true) :
    a.id = id ∧ (p = .requeuePush ∨ (p = .invite ∧ input = .go)) := by
  cases h with
  | invite hi =>
    obtain rfl := List.mem_singleton.mp ho
    exact ⟨beq_iff_eq.mp hid, Or.inr ⟨rfl, hi⟩⟩
  | requeuePush t =>
    obtain rfl := List.mem_singleton.mp ho
    exact ⟨beq_iff_eq.mp hid, Or.inl rfl⟩
  | talking he => rcases he with rfl | ⟨q, rfl⟩ | ⟨op, rfl, -⟩ <;> cases ho
  | persist he =>
    rcases he with rfl | ⟨rec, rfl⟩
    · cases ho
    · obtain rfl := List.mem_singleton.mp ho
      cases hid
  | panic hi hs =>
    split_ifs at ho
    · obtain rfl := List.mem_singleton.mp ho
      cases hid
    · cases ho
  | guardDrop how =>
    obtain ⟨t, -, rfl⟩ := List.mem_map.mp ho
    cases hid
  | finalize | bump =>
    obtain rfl := List.mem_singleton.mp ho
    cases hid
  | _ => cases ho

theorem Placing.owes_of_takesUp {p : Placing} {sh : Shared} {pc : PlacePc} {eff : Effect} {o : Obs}
    {id : CallId} (h : p.next sh.clock = some (pc, eff)) (ho : o ∈ sh.logs eff)
    (hid : o.takesUp id = true) : p.owes id = true := by
  unfold next at h
  split at h <;> rename_i hpc
  all_goals cases h
  · cases ho
  · cases ho
  · obtain rfl := List.mem_singleton.mp ho
    have heq : p.entry.callId = id := beq_iff_eq.mp hid
    simp [owes, hpc, PlacePc.unpushed, heq]
  · cases ho

theorem Ender.not_takesUp {d : Ender} {sh : Shared} {pc : EndPc} {eff : Effect} {o : Obs}
    {id : CallId} (h : d.next sh = some (pc, eff)) (ho : o ∈ sh.logs eff) : o.takesUp id = false := by
  unfold next at h
  split at h
  all_goals cases h
  · obtain rfl := List.mem_singleton.mp ho
    rfl
  · obtain rfl := List.mem_singleton.mp ho
    rfl
  · simp only [Shared.logs] at ho
    split_ifs at ho
    · obtain rfl := List.mem_singleton.mp ho
      rfl
    · cases ho

namespace Sys

variable {cfg : ServerConfig} {act : Act} {s s' : Sys} {tok : Token} {a : Attempt} {id : CallId}

theorem Step.takesUp (h : Step cfg s act s') {o : Obs} (ho : o ∈ news s s')
    (hid : o.takesUp id = true) :
    (∃ pc, s.At id (.placing pc)) ∨ s.At id .pending ∨
      ∃ tok input a, act = .run tok input ∧ s.attempts[tok]? = some a ∧ a.owns id = true ∧
        (a.phase.stage = .requeuePush ∨ (a.phase.stage = .invite ∧ input = .go)) := by
  obtain ⟨eff, -, ho, horigin⟩ := h.origin ho
  cases horigin with
  | place =>
    obtain rfl := List.mem_singleton.mp ho
    cases hid
  | placing hp hn => exact Or.inl ⟨_, .placing hp (Placing.owes_of_takesUp hn ho hid)⟩
  | pop hd hq =>
    obtain rfl := List.mem_singleton.mp ho
    refine Or.inr (Or.inl (.pending ?_ (beq_iff_eq.mp hid)))
    rw [(MemQueue.popEligible_some hq).2]
    exact List.mem_cons_self
  | register =>
    obtain ⟨t, -, rfl⟩ := List.mem_map.mp ho
    cases hid
  | @run tok input a phase eff ha hn =>
    obtain ⟨rfl, hst⟩ := (Attempt.next_step hn).takesUp ho hid
    refine Or.inr (Or.inr ⟨tok, input, a, rfl, ha, ?_, hst⟩)
    rcases hst with hst | ⟨hst, -⟩ <;> simp [Attempt.owns, hst, Stage.owns]
  | endCall i =>
    rcases s.sh.endCall_cases i with ⟨e, rest, -, h⟩ | ⟨tok, -, -, h⟩ | ⟨-, -, h⟩ <;>
      rw [h] at ho <;> simp only [Shared.logs, List.mem_cons, List.not_mem_nil, or_false] at ho
    · rcases ho with rfl | rfl | rfl <;> cases hid
    · rcases ho with rfl | rfl <;> cases hid
    · subst ho
      cases hid
  | ender hd hn =>
    rw [Ender.not_takesUp hn ho] at hid
    cases hid

/-- The call will not be taken up again: it is settled, or is about to be by the `end_call`
that took it out of the queue, or by an attempt that has been signalled. -/
def Doomed (s : Sys) (id : CallId) : Prop :=
  s.At id .settled ∨ s.At id .ender ∨ ∃ (tok : Token) (a : Attempt), s.attempts[tok]? = some a ∧
    a.owns id = true ∧ a.phase.stage.requeuing = false ∧ s.sh.signalOf tok = some .sent

theorem signalOf_eq {c : Chan} (h : s.sh.chans[tok]? = some c) : s.sh.signalOf tok = some c.signal := by
  rw [Shared.signalOf, h]
  rfl

theorem Doomed.not_takenUp (hd : s.Doomed id) (hc : s.Custody) (hok : Heeding cfg s act)
    (h : Step cfg s act s') {o : Obs} (ho : o ∈ news s s') : o.takesUp id = false := by
  by_contra hid
  rw [Bool.not_eq_false] at hid
  have hplace : ∀ v, s.At id v → v ≠ .pending → (∀ pc, v ≠ .placing pc) →
      ∃ tok input a, act = .run tok input ∧ s.attempts[tok]? = some a ∧ a.owns id = true ∧
        (a.phase.stage = .requeuePush ∨ (a.phase.stage = .invite ∧ input = .go)) := by
    intro v hv hpend hplacing
    rcases h.takesUp ho hid with ⟨pc, hat⟩ | hat | hrun
    · exact absurd (at_unique hc hv hat) (hplacing pc)
    · exact absurd (at_unique hc hv hat) hpend
    · exact hrun
  rcases hd with hat | hat | ⟨tok, a, ha, hown, hreq, hsig⟩
  · obtain ⟨tok, input, a, -, ha, hown, -⟩ := hplace _ hat (by simp) (by simp)
    cases at_unique hc hat (.attempt ha hown)
  · obtain ⟨tok, input, a, -, ha, hown, -⟩ := hplace _ hat (by simp) (by simp)
    cases at_unique hc hat (.attempt ha hown)
  · obtain ⟨tok', input, b, rfl, hb, hownb, hst⟩ := hplace _ (.attempt ha hown) (by simp) (by simp)
    obtain rfl := owner_unique hc ha hb hown hownb
    obtain rfl := Option.some.inj (ha.symm.trans hb)
    rcases hst with hst | ⟨hst, rfl⟩
    · rw [hst] at hreq
      cases hreq
    · have hno := hok a ha hsig
      simp [Attempt.dialsOn, hst] at hno

theorem Doomed.step (hd : s.Doomed id) (hs : s.Sound) (hok : Heeding cfg s act)
    (h : Step cfg s act s') : s'.Doomed id := by
  have hc' := (sound_step hs h).custody
  obtain ⟨w, hw⟩ := exists_at hc' id
  rcases hd with hat | hat | ⟨tok, a, ha, hown, hreq, hsig⟩
  · cases life_step hs.custody hs.aligned h hat hw with
    | stay => exact Or.inl hw
    | finalize => exact Or.inl hw
  · cases life_step hs.custody hs.aligned h hat hw with
    | stay => exact Or.inr (Or.inl hw)
    | finalize => exact Or.inl hw
  · obtain ⟨a', ha', ⟨he, -⟩, hmoved⟩ := h.forth hs.aligned ha
    obtain ⟨c, hc⟩ := hs.aligned.chan ha
    obtain ⟨c', hch', hsent, -⟩ := h.chan hc
    have hsig' : s'.sh.signalOf tok = some .sent := by
      rw [signalOf_eq hc] at hsig
      rw [signalOf_eq hch', hsent (Option.some.inj hsig)]
    obtain ⟨rfl, howns⟩ : a.id = id ∧ a.phase.stage.owns = true := by
      simpa [Attempt.owns] using hown
    have hid : a'.id = a.id := congrArg PendingEntry.callId he
    have hkeep : a'.phase.stage.owns = true → a'.phase.stage.requeuing = false → s'.Doomed a.id :=
      fun ho hr => Or.inr (Or.inr ⟨tok, a', ha', by simp [Attempt.owns, hid, ho], hr, hsig'⟩)
    cases hmoved with
    | still heq => exact hkeep (heq ▸ howns) (heq ▸ hreq)
    | handed hact hh =>
      rcases hh.target with h | h | h
      all_goals exact hkeep (by rw [h]; rfl) (by rw [h]; rfl)
    | @run input eff hact hstep hn hsh =>
      cases hq : a'.phase.stage.owns with
      | true =>
        refine hkeep hq ?_
        by_contra hr
        rw [Bool.not_eq_false] at hr
        rcases hstep.of_requeuing hr with hp | ⟨hp, hbusy⟩
        · rw [hp] at hreq
          cases hreq
        · subst hact
          have hno := hok a ha hsig
          simp [Attempt.dialsOn, hp, hbusy] at hno
      | false =>
        have hsettled : ∀ o ∈ s.sh.logs eff, o.settles a.id = true → s'.Doomed a.id := by
          intro o ho hsettles
          refine Or.inl (.settled (o := o) ?_ hsettles)
          rw [hsh, Shared.log_apply]
          exact List.mem_append_right _ ho
        rcases hstep.gives_up howns hq with ⟨hst, -⟩ | ⟨c, -, rfl⟩ | ⟨-, rfl⟩
        · rw [hst] at hreq
          cases hreq
        · exact hsettled _ (List.mem_singleton.mpr rfl) (beq_self_eq_true a.id)
        · exact hsettled _ (List.mem_singleton.mpr rfl) (beq_self_eq_true a.id)

theorem Step.enders_endCall (h : Step cfg s (.endCall id) s') :
    s'.enders = s.enders ++ [⟨id, (s.sh.endCall id).1⟩] := by
  cases h with
  | endCall => rfl

/-- The promise to cancel is made by the `end_call` that takes the call out of the queue,
and by the one that has signalled a channel whose receiver is there. -/
theorem Step.promises (h : Step cfg s act s') {st : Option CallState}
    (ho : .accepted id st ∈ news s s') :
    s'.At id .ender ∨ ∃ i d tok, act = .ender i ∧ s.enders[i]? = some d ∧ d.id = id ∧
      d.pc = .send tok ∧ s.sh.hears tok = true ∧ s'.sh = s.sh.apply (.send tok id) := by
  obtain ⟨eff, hsh, ho, horigin⟩ := h.origin ho
  have hyes := Shared.promises_of_logs ho
  cases horigin with
  | place | pop | register => cases hyes
  | placing hp hn => exact absurd hyes (by rw [Placing.not_promises hn]; decide)
  | run ha hn => exact absurd hyes (by rw [(Attempt.next_step hn).not_promises]; decide)
  | endCall i =>
    rcases s.sh.endCall_cases i with ⟨e, rest, hq, heq⟩ | ⟨tok, -, -, heq⟩ | ⟨-, -, heq⟩
    · rw [heq] at ho
      obtain ⟨rfl, -⟩ : id = e.callId ∧ _ := by simpa [Shared.logs] using ho
      refine Or.inl (.ender (i := s.enders.length) (d := ⟨i, .finalize⟩) ?_ ?_)
      · rw [h.enders_endCall, heq]
        exact List.getElem?_concat_length
      · simp [Ender.owns, EndPc.finalizes, (MemQueue.remove_some hq).1]
    · rw [heq] at hyes
      cases hyes
    · rw [heq] at hyes
      cases hyes
  | @ender i d pc eff hd hn =>
    unfold Ender.next at hn
    split at hn <;> rename_i hpc
    all_goals cases hn
    · cases hyes
    · cases hyes
    · rename_i tok
      rw [Shared.logs] at ho
      split_ifs at ho with hhears
      · obtain ⟨rfl, -⟩ := Obs.accepted.inj (List.mem_singleton.mp ho)
        exact Or.inr ⟨i, d, tok, rfl, hd, rfl, hpc, hhears, hsh⟩
      · cases ho

/-- An `end_call` that is going to return true has doomed the call. -/
theorem doomed_of_accepted (hs : s.Sound) (hw : s.Wired) (hok : Heeding cfg s act)
    (h : Step cfg s act s') {st : Option CallState} (ho : .accepted id st ∈ news s s') :
    s'.Doomed id := by
  rcases h.promises ho with hat | ⟨i, d, tok, rfl, hd, rfl, hpc, hhears, hsh⟩
  · exact Or.inr (Or.inl hat)
  obtain ⟨a, ha, hid⟩ := hw.sending i d tok hd hpc
  have hreq : a.phase.stage.requeuing = false := hok d hd tok (by rw [hpc]; rfl) a ha
  obtain ⟨a', ha', ⟨he, -⟩, hmoved⟩ := h.forth hs.aligned ha
  have hsame : a' = a := by
    cases hmoved with
    | still heq => exact heq
    | run hact | handed hact => cases hact
  subst hsame
  rcases a'.phase.stage.owns_or_out with h' | howns | hover | hdeaf
  · rw [hreq] at h'
    cases h'
  · refine Or.inr (Or.inr ⟨tok, a', ha', by simp [Attempt.owns, hid, howns], hreq, ?_⟩)
    obtain ⟨c, hc⟩ := hs.aligned.chan ha
    rw [hsh, Shared.apply, if_pos hhears, Shared.signalOf, Shared.chan_modify hc, if_pos rfl]
    rfl
  · obtain ⟨o, hlog, hsettles⟩ := hw.leaving tok a' ha hover
    refine Or.inl (.settled (o := o) ?_ (hid ▸ hsettles))
    rw [h.log_eq]
    exact List.mem_append_left _ hlog
  · rw [hw.deaf tok a' ha hdeaf] at hhears
    cases hhears

/-- Custody and channels are in order, nothing has taken up a call after an accepted
`end_call` for it, and nothing will. -/
structure Heeded (s : Sys) : Prop where
  sound : s.Sound
  wired : s.Wired
  doomed : ∀ id st, .accepted id st ∈ s.sh.log → s.Doomed id
  heeds : s.sh.log.Pairwise Obs.Heeds

theorem heeded_init (clock : ℕ) : (init cfg clock).Heeded where
  sound := sound_init clock
  wired := wired_init clock
  doomed := fun _ _ h => by cases h
  heeds := List.Pairwise.nil

theorem heeds_news (h : Step cfg s act s') : (news s s').Pairwise Obs.Heeds := by
  rcases h.shared with ⟨eff, hsh⟩ | ⟨now, hsh⟩
  · rw [news_eq eff hsh]
    exact s.sh.heeds_logs eff
  · rw [news, hsh, List.drop_length]
    exact List.Pairwise.nil

theorem heeded_step (hs : s.Heeded) (hok : Heeding cfg s act) (h : Step cfg s act s') : s'.Heeded where
  sound := sound_step hs.sound h
  wired := wired_step hs.wired hs.sound.aligned h
  doomed := by
    intro id st ho
    rw [h.log_eq] at ho
    rcases List.mem_append.mp ho with hold | hnew
    · exact (hs.doomed id st hold).step hs.sound hok h
    · exact doomed_of_accepted hs.sound hs.wired hok h hnew
  heeds := by
    rw [h.log_eq]
    refine List.pairwise_append.mpr ⟨hs.heeds, heeds_news h, fun o ho o' hnew => ?_⟩
    rintro id st rfl -
    exact (hs.doomed id st ho).not_takenUp hs.sound.custody hok h hnew

/-- Where no signalled attempt goes on dialling, an accepted `end_call` is never lost. -/
theorem cancel_heeded {clock : ℕ} {tr : List Act}
    (h : Run (step cfg) (Heeding cfg) (init cfg clock) tr s) : s.sh.log.Pairwise Obs.Heeds :=
  (h.invariant (heeded_init clock) fun _ _ _ hs hok hstep =>
    heeded_step hs hok (step_cases hstep)).heeds

instance (s : Sys) (act : Act) : Decidable (Heeding cfg s act) :=
  match act with
  | .run tok input => inferInstanceAs (Decidable (∀ a ∈ s.attempts[tok]?,
      s.sh.signalOf tok = some .sent → a.dialsOn cfg input = false))
  | .ender i => inferInstanceAs (Decidable (∀ d ∈ s.enders[i]?, ∀ tok ∈ d.pc.target,
      ∀ a ∈ s.attempts[tok]?, a.phase.stage.requeuing = false))
  | .tick _ | .place .. | .placing _ | .dispatch | .timer | .endCall _ => .isTrue trivial

def ringing : List Act :=
  placeCall 0 0 ++ List.replicate 9 .dispatch ++
    [.run 0 .go, .run 0 .go, .run 0 (.invited (.ok ())), .run 0 (.warmed (.ok ()))]

/-- The call is cancelled while it rings. -/
def cancelRinging : List Act := ringing ++ [.endCall (callId 0), .ender 0]

/-- It is answered, and the loop takes the cancel. -/
theorem cancel_heeded_answered :
    ∃ s, exec (guarded (step noPreflight) (Heeding noPreflight)) (init noPreflight 0)
        (cancelRinging ++ [.run 0 (.ring (.answered ⟨8, .alaw, 20⟩)), .run 0 .go, .run 0 (.loop .cancelled)]) =
      some s ∧ .accepted (callId 0) (some .ringing) ∈ s.sh.log ∧ s.sh.log.Pairwise Obs.Heeds := by
  obtain ⟨s, hs, hlog⟩ : ∃ s, exec (guarded (step noPreflight) (Heeding noPreflight))
      (init noPreflight 0) (cancelRinging ++ [.run 0 (.ring (.answered ⟨8, .alaw, 20⟩)), .run 0 .go,
        .run 0 (.loop .cancelled)]) = some s ∧
      s.sh.log.getLast? = some (.accepted (callId 0) (some .ringing)) := ⟨_, rfl, rfl⟩
  exact ⟨s, hs, List.mem_of_getLast? hlog, cancel_heeded (run_of_guarded hs)⟩

def redialAtOnce : ServerConfig := { noPreflight with retry := { busyRetryIntervalMs := 0 } }

def busyRing : List Act :=
  .run 0 (.ring (.terminated (.failed .busy "486"))) :: List.replicate 4 (.run 0 .go)

/-- The cancelled call is dialled again. -/
theorem cancel_lost_on_busy :
    ∃ s, exec (step redialAtOnce) (init redialAtOnce 0) (cancelRinging ++ busyRing ++
        [.run 0 .go] ++ List.replicate 9 .dispatch ++ List.replicate 2 (.run 1 .go)) = some s ∧
      ¬ s.sh.log.Pairwise Obs.Heeds := by
  obtain ⟨s, hs, hacc, hdial⟩ : ∃ s, exec (step redialAtOnce) (init redialAtOnce 0)
      (cancelRinging ++ busyRing ++ [.run 0 .go] ++ List.replicate 9 .dispatch ++
        List.replicate 2 (.run 1 .go)) = some s ∧ s.sh.log[6]? = some (.accepted (callId 0) (some .ringing)) ∧
      s.sh.log[9]? = some (.dialled (callId 0)) := ⟨_, rfl, rfl, rfl⟩
  refine ⟨s, hs, fun hpair => ?_⟩
  obtain ⟨h6, hacc⟩ := List.getElem?_eq_some_iff.mp hacc
  obtain ⟨h9, hdial⟩ := List.getElem?_eq_some_iff.mp hdial
  have hheeds := List.pairwise_iff_getElem.mp hpair 6 9 h6 h9 (by decide)
  rw [hdial] at hheeds
  exact absurd (hheeds _ _ hacc (by decide)) (by simp [Obs.takesUp])

end Sys

end Kutsu
