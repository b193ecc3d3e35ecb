import Kutsu.Proofs.Cancel

/-! Whose sender `cancels` holds. The map is keyed by call, and an attempt's `CancelGuard`
removes whatever is registered for its call when it drops. As long as the dispatcher
registers no attempt of a call while the guard of an earlier one is still to drop, every
sender belongs to the attempt it was made for. -/

namespace Kutsu

open Runs

namespace Stage

def guarding : Stage → Bool
  | .receiverDrop _ | .release | .slotWake | .gone => false
  | _ => true

def cancelled : Stage → Bool
  | .talking c | .finalizing c => c
  | _ => false

section Step

variable {cfg : ServerConfig} {sh : Shared} {tok : Token} {a : Attempt} {input : RunInput}
  {p q : Stage} {eff : Effect}

theorem Step.of_guarding (h : Stage.Step cfg sh tok a input p q eff) (hq : q.guarding = true) :
    p.guarding = true := by
  cases h with
  | panic hi hs => cases p <;> first | rfl | cases hs
  | guardDrop | receiverDrop | release | slotWake => cases hq
  | _ => rfl

theorem Step.drops_guard (h : Stage.Step cfg sh tok a input p q eff) (hp : p.guarding = true)
    (hq : q.guarding = false) : eff = .dropGuard tok a.id := by
  cases h with
  | guardDrop => rfl
  | receiverDrop | release | slotWake => cases hp
  | start h | preflight h | reportWake h | bump d h => rcases h with rfl | rfl <;> cases hq
  | unreported hr h => rcases h with rfl | rfl <;> cases hq
  | ringing h => rcases h with rfl | rfl | rfl <;> cases hq
  | _ => cases hq

theorem Step.of_cancelled (h : Stage.Step cfg sh tok a input p q eff) (hq : q.cancelled = true) :
    p.cancelled = true ∨ (p.guarding = true ∧ sh.signalOf tok ≠ some .quiet) := by
  cases h with
  | cancelled _ h | hungUp h => exact Or.inr ⟨rfl, h⟩
  | talking | resolve => exact Or.inl hq
  | start h | preflight h | reportWake h | bump d h => rcases h with rfl | rfl <;> cases hq
  | unreported hr h => rcases h with rfl | rfl <;> cases hq
  | ringing h => rcases h with rfl | rfl | rfl <;> cases hq
  | _ => cases hq

end Step

end Stage

def Attempt.guarding (a : Attempt) : Bool := a.phase.stage.guarding

theorem Shared.apply_unwired (sh : Shared) {eff : Effect} (h : eff.wires = false) :
    (sh.apply eff).cancels = sh.cancels ∧ (sh.apply eff).chans = sh.chans ∧
      ∀ tok by_, .unregistered tok by_ ∉ sh.logs eff := by
  cases eff with
  | register | takeSender | send | dropGuard | dropReceiver => cases h
  | _ => exact ⟨rfl, rfl, by simp [logs]⟩

theorem Placing.unwired {p : Placing} {now : ℕ} {pc : PlacePc} {eff : Effect}
    (h : p.next now = some (pc, eff)) : eff.wires = false := by
  unfold next at h
  split at h
  all_goals cases h
  all_goals rfl

theorem Stage.Step.wires {cfg : ServerConfig} {sh : Shared} {tok : Token} {a : Attempt}
    {input : RunInput} {p q : Stage} {eff : Effect} (h : Stage.Step cfg sh tok a input p q eff) :
    eff.wires = false ∨ q.guarding = false ∧
      (p.guarding = true ∧ eff = .dropGuard tok a.id ∨ eff = .dropReceiver tok) := by
  cases h with
  | guardDrop how => exact Or.inr ⟨rfl, Or.inl ⟨rfl, rfl⟩⟩
  | receiverDrop how => exact Or.inr ⟨rfl, Or.inr rfl⟩
  | talking he => rcases he with rfl | ⟨q, rfl⟩ | ⟨op, rfl, -⟩ <;> exact Or.inl rfl
  | persist he => rcases he with rfl | ⟨rec, rfl⟩ <;> exact Or.inl rfl
  | panic hi hs => split_ifs <;> exact Or.inl rfl
  | _ => exact Or.inl rfl

theorem Stage.Step.finalizes {cfg : ServerConfig} {sh : Shared} {tok : Token} {a : Attempt}
    {input : RunInput} {p q : Stage} {eff : Effect} {e : Ending}
    (h : Stage.Step cfg sh tok a input p q eff) (he : eff = .finalize e) :
    e.id = a.id ∧ (e.disposition = .cancelled → p.cancelled = true) := by
  cases h with
  | finalize c =>
    obtain rfl := Effect.finalize.inj he
    exact ⟨rfl, cancelled_of_resolveDisposition⟩
  | talking hop => rcases hop with rfl | ⟨q, rfl⟩ | ⟨op, rfl, -⟩ <;> cases he
  | persist hop => rcases hop with rfl | ⟨rec, rfl⟩ <;> cases he
  | panic hi hs => split_ifs at he
  | _ => cases he

namespace Sys

variable {cfg : ServerConfig} {act : Act} {s s' : Sys} {tok : Token} {a : Attempt} {id : CallId}

inductive Wires (s s' : Sys) : Act → Prop where
  | still {act : Act} (hcancels : s'.sh.cancels = s.sh.cancels) (hchans : s'.sh.chans = s.sh.chans)
      (hnews : ∀ tok by_, .unregistered tok by_ ∉ news s s')
      (henders : ∀ (i : ℕ) (d : Ender) (tok : Token), s.enders[i]? = some d → d.pc = .send tok →
        s'.enders[i]? = some d) :
      Wires s s' act
  | register {e : PendingEntry} {now : ℕ} {probe : Bool} (hd : s.disp = .register e now probe)
      (hsh : s'.sh = s.sh.apply (.register e.callId)) (henders : s'.enders = s.enders) :
      Wires s s' .dispatch
  | take {id : CallId} {tok : Token} (hl : s.sh.cancels.lookup id = some tok)
      (hsh : s'.sh = s.sh.apply (.takeSender tok id))
      (henders : s'.enders = s.enders ++ [⟨id, .send tok⟩]) : Wires s s' (.endCall id)
  | send {i : ℕ} {d : Ender} {tok : Token} (hd : s.enders[i]? = some d) (hpc : d.pc = .send tok)
      (hsh : s'.sh = s.sh.apply (.send tok d.id))
      (henders : ∀ j, j ≠ i → s'.enders[j]? = s.enders[j]?) : Wires s s' (.ender i)
  | dropGuard {tok : Token} {input : RunInput} {a : Attempt} (ha : s.attempts[tok]? = some a)
      (hguard : a.guarding = true) (hsh : s'.sh = s.sh.apply (.dropGuard tok a.id))
      (henders : s'.enders = s.enders)
      (hnext : ∃ a', s'.attempts[tok]? = some a' ∧ a'.guarding = false) : Wires s s' (.run tok input)
  | dropReceiver {tok : Token} {input : RunInput} (hsh : s'.sh = s.sh.apply (.dropReceiver tok))
      (henders : s'.enders = s.enders)
      (hnext : ∃ a', s'.attempts[tok]? = some a' ∧ a'.guarding = false) : Wires s s' (.run tok input)

theorem Step.wires (h : Step cfg s act s') : Wires s s' act := by
  have hstill : ∀ eff : Effect, s'.sh = s.sh.apply eff → eff.wires = false →
      s'.enders = s.enders → Wires s s' act := by
    intro eff hsh hw henders
    obtain ⟨hcancels, hchans, hlogs⟩ := s.sh.apply_unwired hw
    refine .still (hsh ▸ hcancels) (hsh ▸ hchans) ?_ fun i d tok hd _ => henders ▸ hd
    rw [news_eq eff hsh]
    exact hlogs
  cases h with
  | tick => exact .still rfl rfl (by simp [news]) fun i d tok hd _ => hd
  | place => exact hstill .mint rfl rfl rfl
  | @placing i p pc eff hp hn hl => exact hstill eff rfl (Placing.unwired hn) rfl
  | dispatch h =>
    cases h with
    | register hd => exact .register hd rfl rfl
    | look | spawn => exact hstill .idle rfl rfl rfl
    | pop => exact hstill (.pop _ _ _) rfl rfl rfl
    | claim => exact hstill .claimSlot rfl rfl rfl
    | mark => exact hstill (.markProbe _ _) rfl rfl rfl
    | setRinging => exact hstill (.store _) rfl rfl rfl
    | wake => exact hstill .consume rfl rfl rfl
  | timer => exact hstill .idle rfl rfl rfl
  | @run tok input a phase eff ha hn hl =>
    have hnext : ∀ q, phase.stage = q → q.guarding = false →
        ∃ a', (s.attempts.set tok { a with phase })[tok]? = some a' ∧ a'.guarding = false := by
      rintro q rfl hq
      exact ⟨_, List.getElem?_set_self (List.getElem?_eq_some_iff.mp ha).1, hq⟩
    rcases (Attempt.next_step hn).wires with hw | ⟨hq, ⟨hp, rfl⟩ | rfl⟩
    · exact hstill eff rfl hw rfl
    · exact .dropGuard ha hp rfl rfl (hnext _ rfl hq)
    · exact .dropReceiver rfl rfl (hnext _ rfl hq)
  | endCall i hl =>
    have happend : ∀ j d, s.enders[j]? = some d →
        (s.enders ++ [⟨i, (s.sh.endCall i).1⟩])[j]? = some d := fun j d hd =>
      Counting.getElem?_append_some hd _
    rcases s.sh.endCall_cases i with ⟨e, rest, -, h⟩ | ⟨tok, -, hl, h⟩ | ⟨-, -, h⟩
    · refine .still ?_ ?_ ?_ fun j d t hd _ => happend j d hd
      · rw [h]; rfl
      · rw [h]; rfl
      · rw [news_eq (.remove e rest) (by rw [h])]
        simp [Shared.logs]
    · exact .take hl (by rw [h]) (by rw [h])
    · refine .still ?_ ?_ ?_ fun j d t hd _ => happend j d hd
      · rw [h]; rfl
      · rw [h]; rfl
      · rw [news_eq (.noSender i) (by rw [h])]
        simp [Shared.logs]
  | @ender i d pc eff hd hn =>
    have hne : ∀ j, j ≠ i → (s.enders.set i { d with pc })[j]? = s.enders[j]? := fun j hj =>
      List.getElem?_set_ne (Ne.symm hj)
    have hkeep : (∀ tok, d.pc ≠ .send tok) → ∀ (j : ℕ) (x : Ender) (tok : Token),
        s.enders[j]? = some x → x.pc = .send tok →
        (s.enders.set i { d with pc })[j]? = some x := by
      intro hno j x tok hx hpc
      rw [hne j, hx]
      rintro rfl
      obtain rfl := Option.some.inj (hd.symm.trans hx)
      exact hno tok hpc
    unfold Ender.next at hn
    split at hn <;> rename_i hpc
    all_goals cases hn
    · refine .still rfl rfl ?_ (hkeep (by rw [hpc]; simp))
      rw [news_eq (.finalize _) rfl]
      simp [Shared.logs]
    · refine .still rfl rfl ?_ (hkeep (by rw [hpc]; simp))
      rw [news_eq (.bump _ _) rfl]
      simp [Shared.logs]
    · exact .send hd hpc rfl hne

/-- An attempt that can still be cancelled, is about to be signalled, or has been. -/
inductive Held (s : Sys) (tok : Token) (id : CallId) : Prop where
  | registered (hl : s.sh.cancels.lookup id = some tok) (hq : s.sh.signalOf tok = some .quiet)
  | taken {i : ℕ} {d : Ender} (hd : s.enders[i]? = some d) (hpc : d.pc = .send tok)
      (hq : s.sh.signalOf tok = some .quiet)
  | sent (hq : s.sh.signalOf tok = some .sent)

structure Guarded (s : Sys) : Prop where
  unique : ∀ (tok t : Token) (a b : Attempt), s.attempts[tok]? = some a → s.attempts[t]? = some b →
    a.guarding = true → b.guarding = true → a.id = b.id → tok = t
  registered : ∀ id tok, s.sh.cancels.lookup id = some tok →
    ∃ a, s.attempts[tok]? = some a ∧ a.id = id ∧ a.guarding = true
  held : ∀ (tok : Token) (a : Attempt), s.attempts[tok]? = some a → a.guarding = true →
    s.sh.hears tok = true ∧ s.Held tok a.id

theorem guarded_init (clock : ℕ) : (init cfg clock).Guarded :=
  ⟨(fun _ _ _ _ h => by cases h), (fun _ _ h => by cases h), fun _ _ h => by cases h⟩

end Sys

def DispPc.registering : DispPc → Option PendingEntry
  | .register e _ _ => some e
  | _ => none

namespace Sys

variable {cfg : ServerConfig} {act : Act} {s s' : Sys} {tok : Token} {a a' : Attempt} {id : CallId}

/-- The dispatcher registers a call only when no attempt of it has its guard still to drop. -/
def Exclusive (s : Sys) : Act → Prop
  | .dispatch => ∀ e ∈ s.disp.registering, ∀ a ∈ s.attempts, a.id = e.callId → a.guarding = false
  | _ => True

theorem Exclusive.unguarded {e : PendingEntry} {now : ℕ} {probe : Bool} (hok : Exclusive s .dispatch)
    (hd : s.disp = .register e now probe) (ha : s.attempts[tok]? = some a) (hg : a.guarding = true) :
    a.id ≠ e.callId := by
  intro hid
  have hno := hok e (by rw [hd]; rfl) a (List.mem_of_getElem? ha) hid
  rw [hg] at hno
  cases hno

theorem Guarded.lookup_none (hg : s.Guarded) {e : PendingEntry} {now : ℕ} {probe : Bool}
    (hok : Exclusive s .dispatch) (hd : s.disp = .register e now probe) :
    s.sh.cancels.lookup e.callId = none := by
  cases hl : s.sh.cancels.lookup e.callId with
  | none => rfl
  | some tok =>
    obtain ⟨a, ha, hid, hguard⟩ := hg.registered _ _ hl
    exact absurd hid (hok.unguarded hd ha hguard)

theorem Guarded.own_sender (hg : s.Guarded) (ha : s.attempts[tok]? = some a) (hguard : a.guarding = true)
    {t : Token} (hl : s.sh.cancels.lookup a.id = some t) : t = tok := by
  obtain ⟨b, hb, hid, hguardb⟩ := hg.registered _ _ hl
  exact hg.unique t tok b a hb ha hguardb hguard hid

theorem Moved.guarding (h : Moved cfg s s' act tok a a') (hg : a'.guarding = true) :
    a.guarding = true := by
  cases h with
  | still heq => exact heq ▸ hg
  | run hact h => exact h.of_guarding hg
  | handed hact h =>
    rw [Attempt.guarding]
    cases hp : a.phase.stage <;> first | rfl | (rw [hp] at h; cases h)

theorem Held.transfer (h : s.Held tok id)
    (hl : s.sh.cancels.lookup id = some tok → s'.sh.cancels.lookup id = some tok)
    (hc : s'.sh.chans[tok]? = s.sh.chans[tok]?)
    (he : ∀ (i : ℕ) (d : Ender), s.enders[i]? = some d → d.pc = .send tok → s'.enders[i]? = some d) :
    s'.Held tok id := by
  have hsig : s'.sh.signalOf tok = s.sh.signalOf tok := congrArg (Option.map _) hc
  cases h with
  | registered hreg hq => exact .registered (hl hreg) (hsig.trans hq)
  | taken hd hpc hq => exact .taken (he _ _ hd hpc) hpc (hsig.trans hq)
  | sent hq => exact .sent (hsig.trans hq)

end Sys

namespace Shared

variable {sh : Shared} {tok t : Token} {id k : CallId}

theorem apply_register (h : sh.cancels.lookup id = none) :
    sh.apply (.register id) = { sh with cancels := sh.cancels.insert id sh.chans.length
                                        chans := sh.chans ++ [{}] } := by
  simp only [apply, unregister, h]

theorem chan_register : (sh.apply (.register id)).chans[sh.chans.length]? = some {} := by
  have hlen := length_unregister sh id (.registration sh.chans.length)
  simp only [apply]
  rw [List.getElem?_append_right hlen.le, hlen, Nat.sub_self]
  rfl

theorem chans_dropGuard (h : ∀ u, sh.cancels.lookup id = some u → u = tok) (hne : t ≠ tok) :
    (sh.apply (.dropGuard tok id)).chans[t]? = sh.chans[t]? := by
  simp only [apply, unregister]
  split
  · rename_i u hu
    rw [h u hu]
    exact List.getElem?_modify_ne _ _ (Ne.symm hne)
  · rfl

theorem lookup_dropGuard : (sh.apply (.dropGuard tok id)).cancels.lookup id = none := by
  simp only [apply, unregister]
  split
  · exact AList.lookup_erase ..
  · assumption

theorem lookup_dropGuard_ne (h : k ≠ id) :
    (sh.apply (.dropGuard tok id)).cancels.lookup k = sh.cancels.lookup k := by
  simp only [apply, unregister]
  split
  · exact AList.lookup_erase_ne h
  · rfl

end Shared

namespace Sys

variable {cfg : ServerConfig} {act : Act} {s s' : Sys} {tok : Token} {a a' : Attempt} {id : CallId}

theorem hears_congr (h : s'.sh.chans[tok]? = s.sh.chans[tok]?) : s'.sh.hears tok = s.sh.hears tok :=
  congrArg (Option.any _) h

/-- No one but the attempt itself and an `end_call` for it touches what it holds. -/
theorem held_old (hg : s.Guarded) (hal : s.Aligned) (hok : Exclusive s act) (h : Step cfg s act s')
    (ha : s.attempts[tok]? = some a) (ha' : s'.attempts[tok]? = some a') (hguard : a.guarding = true)
    (hguard' : a'.guarding = true) : s'.sh.hears tok = true ∧ s'.Held tok a.id := by
  obtain ⟨hhears, hheld⟩ := hg.held tok a ha hguard
  obtain ⟨c, hc⟩ := hal.chan ha
  have hframe : (s.sh.cancels.lookup a.id = some tok → s'.sh.cancels.lookup a.id = some tok) →
      s'.sh.chans[tok]? = s.sh.chans[tok]? → (∀ (i : ℕ) (d : Ender), s.enders[i]? = some d →
        d.pc = .send tok → s'.enders[i]? = some d) → s'.sh.hears tok = true ∧ s'.Held tok a.id :=
    fun hl hch he => ⟨(hears_congr hch).trans hhears, hheld.transfer hl hch he⟩
  have hstays : (∃ a', s'.attempts[tok]? = some a' ∧ a'.guarding = false) → False := by
    rintro ⟨b, hb, hno⟩
    obtain rfl := Option.some.inj (ha'.symm.trans hb)
    rw [hguard'] at hno
    cases hno
  cases h.wires with
  | still hcancels hchans hnews henders =>
    exact hframe (fun hl => hcancels ▸ hl) (by rw [hchans]) fun i d hd hpc => henders i d tok hd hpc
  | @register e now probe hd hsh henders =>
    have hne := hok.unguarded hd ha hguard
    rw [Shared.apply_register (hg.lookup_none hok hd)] at hsh
    refine hframe (fun hl => ?_) ?_ fun i d hd hpc => henders ▸ hd
    · rw [hsh, AList.lookup_insert_ne hne]
      exact hl
    · rw [hsh, hc]
      exact Counting.getElem?_append_some hc _
  | @take i t hl hsh henders =>
    have hch : s'.sh.chans[tok]? = s.sh.chans[tok]? := by rw [hsh]; rfl
    have hsig : s'.sh.signalOf tok = s.sh.signalOf tok := congrArg (Option.map _) hch
    refine ⟨(hears_congr hch).trans hhears, ?_⟩
    cases hheld with
    | registered hreg hq =>
      by_cases hid : a.id = i
      · -- this `end_call` is the one that will signal the attempt
        obtain rfl := Option.some.inj ((hid ▸ hreg).symm.trans hl)
        exact .taken (henders ▸ List.getElem?_concat_length) rfl (hsig.trans hq)
      · refine .registered ?_ (hsig.trans hq)
        rw [hsh, Shared.apply, AList.lookup_erase_ne hid]
        exact hreg
    | taken hd hpc hq =>
      exact .taken (henders ▸ Counting.getElem?_append_some hd _) hpc (hsig.trans hq)
    | sent hq => exact .sent (hsig.trans hq)
  | @send i d t hd hpc hsh henders =>
    by_cases heq : t = tok
    · subst heq
      rw [Shared.apply, if_pos hhears] at hsh
      have hch : s'.sh.chans[t]? = some { c with signal := .sent } := by
        rw [hsh, Shared.chan_modify hc, if_pos rfl]
      refine ⟨?_, .sent (signalOf_eq hch)⟩
      rw [hears_eq hc] at hhears
      rw [hears_eq hch, hhears]
    · refine hframe (fun hl => ?_) ?_ fun j x hx hpcx => ?_
      · rw [hsh, Shared.apply]
        split_ifs <;> exact hl
      · rw [hsh, Shared.apply]
        split_ifs
        · exact List.getElem?_modify_ne _ _ heq
        · rfl
      · rw [henders j, hx]
        rintro rfl
        obtain rfl := Option.some.inj (hd.symm.trans hx)
        exact heq (EndPc.send.inj (hpc.symm.trans hpcx))
  | @dropGuard t input b hb hguardb hsh henders hnext =>
    have hne : tok ≠ t := by
      rintro rfl
      exact hstays hnext
    have hid : a.id ≠ b.id := fun hid => hne (hg.unique tok t a b ha hb hguard hguardb hid)
    refine hframe (fun hl => ?_) ?_ fun i d hd hpc => henders ▸ hd
    · rw [hsh, Shared.lookup_dropGuard_ne hid]
      exact hl
    · rw [hsh]
      exact Shared.chans_dropGuard (fun u hu => hg.own_sender hb hguardb hu) hne
  | @dropReceiver t input hsh henders hnext =>
    have hne : tok ≠ t := by
      rintro rfl
      exact hstays hnext
    refine hframe (fun hl => hsh ▸ hl) ?_ fun i d hd hpc => henders ▸ hd
    rw [hsh]
    exact List.getElem?_modify_ne _ _ (Ne.symm hne)

theorem held_made (hg : s.Guarded) (hal : s.Aligned) (hok : Exclusive s act)
    (hm : Made s s' act tok a') : s'.sh.hears tok = true ∧ s'.Held tok a'.id := by
  obtain ⟨now, hd⟩ := hm.disp
  have hsh := hm.shared
  rw [Attempt.id, Shared.apply_register (hg.lookup_none (hm.act ▸ hok) hd)] at hsh
  have htok : tok = s.sh.chans.length := hm.last.trans hal.chans.symm
  have hch : s'.sh.chans[tok]? = some {} := by
    rw [hsh, htok]
    exact List.getElem?_concat_length
  refine ⟨hears_eq hch, .registered ?_ (signalOf_eq hch)⟩
  rw [hsh, htok]
  exact AList.lookup_insert _

theorem guarded_step (hg : s.Guarded) (hal : s.Aligned) (hok : Exclusive s act)
    (h : Step cfg s act s') : s'.Guarded := by
  refine ⟨fun tok t a' b' ha' hb' hga hgb hid => ?_, fun id tok hl => ?_, fun tok a' ha' hga => ?_⟩
  · have hmade : ∀ (tok t : Token) (a' b b' : Attempt), Made s s' act tok a' →
        s.attempts[t]? = some b → b'.entry = b.entry → b.guarding = true → a'.id ≠ b'.id := by
      intro tok t a' b b' hm hb he hgb hid
      obtain ⟨now, hd⟩ := hm.disp
      exact (hm.act ▸ hok).unguarded hd hb hgb ((congrArg PendingEntry.callId he).symm.trans hid.symm)
    rcases h.back hal ha' with ⟨a, ha, ⟨hea, -⟩, hma⟩ | hma <;>
      rcases h.back hal hb' with ⟨b, hb, ⟨heb, -⟩, hmb⟩ | hmb
    · refine hg.unique tok t a b ha hb (hma.guarding hga) (hmb.guarding hgb) ?_
      rw [Attempt.id, ← hea, Attempt.id, ← heb]
      exact hid
    · exact absurd hid.symm (hmade t tok b' a a' hmb ha hea (hma.guarding hga))
    · exact absurd hid (hmade tok t a' b b' hma hb heb (hmb.guarding hgb))
    · exact hma.last.trans hmb.last.symm
  · rcases h.lookup hal hl with hold | ⟨a', ha', hid, hm⟩
    · obtain ⟨a, ha, rfl, hguard⟩ := hg.registered id tok hold
      obtain ⟨a', ha', ⟨he, -⟩, hmoved⟩ := h.forth hal ha
      refine ⟨a', ha', congrArg PendingEntry.callId he, ?_⟩
      by_contra hno
      -- the attempt has dropped its guard in this step, and its sender with it
      cases hmoved with
      | still heq => exact hno (heq ▸ hguard)
      | handed hact hh => rcases hh.target with h | h | h <;> simp [Attempt.guarding, h, Stage.guarding] at hno
      | run hact hstep hn hsh =>
        rw [hstep.drops_guard hguard (Bool.not_eq_true _ ▸ hno)] at hsh
        rw [hsh, Shared.lookup_dropGuard] at hl
        cases hl
    · refine ⟨a', ha', hid, ?_⟩
      rw [Attempt.guarding, hm.phase]
      rfl
  · rcases h.back hal ha' with ⟨a, ha, ⟨he, -⟩, hmoved⟩ | hm
    · rw [Attempt.id, he]
      exact held_old hg hal hok h ha ha' (hmoved.guarding hga) hga
    · exact held_made hg hal hok hm

/-- Wherever a cancel has left its mark, `end_call` was called. -/
structure Called (s : Sys) : Prop where
  enders : ∀ d ∈ s.enders, .endCalled d.id ∈ s.sh.log
  sent : ∀ (tok : Token) (a : Attempt), s.attempts[tok]? = some a → s.sh.signalOf tok = some .sent →
    .endCalled a.id ∈ s.sh.log
  cancelled : ∀ (tok : Token) (a : Attempt), s.attempts[tok]? = some a →
    a.phase.stage.cancelled = true → .endCalled a.id ∈ s.sh.log

theorem called_init (clock : ℕ) : (init cfg clock).Called :=
  ⟨(fun _ h => by cases h), (fun _ _ h => by cases h), fun _ _ h => by cases h⟩

theorem Step.endCalled (h : Step cfg s (.endCall id) s') : .endCalled id ∈ s'.sh.log := by
  rw [h.log_eq]
  refine List.mem_append_right _ ?_
  cases h with
  | endCall =>
    rw [news_eq (s.sh.endCall id).2 rfl]
    rcases s.sh.endCall_cases id with ⟨e, rest, hq, heq⟩ | ⟨tok, -, -, heq⟩ | ⟨-, -, heq⟩ <;>
      rw [heq]
    · rw [← (MemQueue.remove_some hq).1]
      exact List.mem_cons_self
    · exact List.mem_cons_self
    · exact List.mem_cons_self

theorem Step.enders_back (h : Step cfg s act s') {d : Ender} (hd : d ∈ s'.enders) :
    (∃ x ∈ s.enders, x.id = d.id) ∨ act = .endCall d.id := by
  cases h with
  | endCall i =>
    rcases List.mem_append.mp hd with hd | hd
    · exact Or.inl ⟨d, hd, rfl⟩
    · obtain rfl := List.mem_singleton.mp hd
      exact Or.inr rfl
  | @ender i x pc eff hx hn =>
    rcases List.mem_or_eq_of_mem_set hd with hd | rfl
    · exact Or.inl ⟨d, hd, rfl⟩
    · exact Or.inl ⟨x, List.mem_of_getElem? hx, rfl⟩
  | dispatch h => cases h <;> exact Or.inl ⟨d, hd, rfl⟩
  | _ => exact Or.inl ⟨d, hd, rfl⟩

theorem Step.signals (h : Step cfg s act s') {c : Chan} (hc : s.sh.chans[tok]? = some c)
    (hs : s'.sh.signalOf tok = some .sent) :
    c.signal = .sent ∨ ∃ (i : ℕ) (d : Ender), s.enders[i]? = some d ∧ d.pc = .send tok := by
  have hback : ∀ {eff c'}, (s.sh.apply eff).chans[tok]? = some c' → s'.sh = s.sh.apply eff →
      c'.signal = .sent := by
    intro eff c' hc' hsh
    rw [hsh, Shared.signalOf, hc'] at hs
    exact Option.some.inj hs
  cases h.wires with
  | still hcancels hchans =>
    rw [Shared.signalOf, hchans, hc] at hs
    exact Or.inl (Option.some.inj hs)
  | register hd hsh | take hl hsh | dropGuard ha hg hsh | dropReceiver hsh =>
    obtain ⟨c', hc', hstep⟩ := Shared.chan_apply hc _
    have hsent := hback hc' hsh
    cases hstep with
    | closed => cases hsent
    | _ => exact Or.inl hsent
  | @send i d t hd hpc hsh =>
    obtain ⟨c', hc', hstep⟩ := Shared.chan_apply hc (.send t d.id)
    have hsent := hback hc' hsh
    cases hstep with
    | still => exact Or.inl hsent
    | sent => exact Or.inr ⟨i, d, hd, hpc⟩
    | closed => cases hsent

theorem called_step (hcl : s.Called) (hg : s.Guarded) (hw : s.Wired) (hal : s.Aligned)
    (h : Step cfg s act s') : s'.Called := by
  have hkeep : ∀ {id}, .endCalled id ∈ s.sh.log → .endCalled id ∈ s'.sh.log := fun ho => by
    rw [h.log_eq]
    exact List.mem_append_left _ ho
  have hsent : ∀ (tok : Token) (a : Attempt), s.attempts[tok]? = some a →
      s.sh.signalOf tok = some .sent → .endCalled a.id ∈ s'.sh.log := fun tok a ha hs =>
    hkeep (hcl.sent tok a ha hs)
  refine ⟨fun d hd => ?_, fun tok a' ha' hs => ?_, fun tok a' ha' hst => ?_⟩
  · rcases h.enders_back hd with ⟨x, hx, hid⟩ | rfl
    · exact hkeep (hid ▸ hcl.enders x hx)
    · exact h.endCalled
  · rcases h.back hal ha' with ⟨a, ha, ⟨he, -⟩, -⟩ | hm
    · obtain ⟨c, hc⟩ := hal.chan ha
      rw [show a'.id = a.id from congrArg PendingEntry.callId he]
      rcases h.signals hc hs with hold | ⟨i, d, hd, hpc⟩
      · exact hsent tok a ha ((signalOf_eq hc).trans (congrArg some hold))
      · obtain ⟨b, hb, hid⟩ := hw.sending i d tok hd hpc
        obtain rfl := Option.some.inj (ha.symm.trans hb)
        exact hkeep (hid ▸ hcl.enders d (List.mem_of_getElem? hd))
    · have hch : s'.sh.chans[tok]? = some {} := by
        rw [hm.shared, hm.last, ← hal.chans]
        exact Shared.chan_register
      rw [signalOf_eq hch] at hs
      cases hs
  · rcases h.back hal ha' with ⟨a, ha, ⟨he, -⟩, hmoved⟩ | hm
    · rw [Attempt.id, he]
      have hold : a.phase.stage.cancelled = true → .endCalled a.id ∈ s'.sh.log := fun hst =>
        hkeep (hcl.cancelled tok a ha hst)
      cases hmoved with
      | still heq => exact hold (heq ▸ hst)
      | handed hact hh => rcases hh.target with h | h | h <;> rw [h] at hst <;> cases hst
      | run hact hstep =>
        rcases hstep.of_cancelled hst with hst | ⟨hguard, hloud⟩
        · exact hold hst
        · -- only a signal that was sent can be seen by an attempt that holds its guard
          cases (hg.held tok a ha hguard).2 with
          | registered hl hq => exact absurd hq hloud
          | taken hd hpc hq => exact absurd hq hloud
          | sent hq => exact hsent tok a ha hq
    · rw [hm.phase] at hst
      cases hst

/-- What belongs to an attempt stays with it: its sender is removed by an `end_call` for
its call or by its own guard; a call is resolved as cancelled only after an `end_call` for
it; and the call of an attempt that no `end_call` has signalled or is about to signal is in
the queue or in `cancels`. -/
structure Belongs (s : Sys) : Prop where
  removed : ∀ tok by_, .unregistered tok by_ ∈ s.sh.log →
    ∃ a, s.attempts[tok]? = some a ∧ (by_ = .endCall a.id ∨ by_ = .guard tok)
  cancelled : ∀ id, .finalized id .cancelled ∈ s.sh.log → .endCalled id ∈ s.sh.log
  reachable : ∀ (tok : Token) (a : Attempt), s.attempts[tok]? = some a → a.guarding = true →
    s.sh.signalOf tok ≠ some .sent → (∀ d ∈ s.enders, d.pc ≠ .send tok) →
    (∃ e ∈ s.sh.queue.pending, e.callId = a.id) ∨ ∃ t, s.sh.cancels.lookup a.id = some t

theorem Step.finalizes (h : Step cfg s act s') (ho : .finalized id .cancelled ∈ news s s') :
    (∃ (tok : Token) (a : Attempt), s.attempts[tok]? = some a ∧ a.id = id ∧
      a.phase.stage.cancelled = true) ∨ ∃ d ∈ s.enders, d.id = id := by
  obtain ⟨eff, -, ho, horigin⟩ := h.origin ho
  obtain ⟨e, rfl, rfl, hcancelled⟩ := Shared.finalize_of_logs ho
  generalize heff : Effect.finalize e = eff at horigin
  cases horigin with
  | place | pop | register => cases heff
  | placing hp hn =>
    unfold Placing.next at hn
    split at hn <;> cases hn <;> cases heff
  | run ha hn =>
    subst heff
    obtain ⟨hid, hst⟩ := (Attempt.next_step hn).finalizes rfl
    exact Or.inl ⟨_, _, ha, hid.symm, hst hcancelled⟩
  | endCall i =>
    rcases s.sh.endCall_cases i with ⟨e, rest, -, h⟩ | ⟨tok, -, -, h⟩ | ⟨-, -, h⟩ <;>
      rw [h] at heff <;> cases heff
  | ender hd hn =>
    unfold Ender.next at hn
    split at hn <;> cases hn <;> cases heff
    exact Or.inr ⟨_, List.mem_of_getElem? hd, rfl⟩

theorem Step.removes (hg : s.Guarded) (hok : Exclusive s act) (h : Step cfg s act s') {by_ : Remover}
    (ho : .unregistered tok by_ ∈ news s s') :
    ∃ a, s.attempts[tok]? = some a ∧ (by_ = .endCall a.id ∨ by_ = .guard tok) := by
  cases h.wires with
  | still hcancels hchans hnews => exact absurd ho (hnews tok by_)
  | register hd hsh =>
    rw [news_eq _ hsh, Shared.logs, hg.lookup_none hok hd] at ho
    cases ho
  | @take i t hl hsh =>
    rw [news_eq _ hsh] at ho
    obtain ⟨rfl, rfl⟩ : tok = t ∧ by_ = .endCall i := by simpa [Shared.logs] using ho
    obtain ⟨a, ha, rfl, -⟩ := hg.registered i tok hl
    exact ⟨a, ha, Or.inl rfl⟩
  | @send i d t hd hpc hsh =>
    rw [news_eq _ hsh, Shared.logs] at ho
    split_ifs at ho
    · cases List.mem_singleton.mp ho
    · cases ho
  | @dropGuard t input a ha hguard hsh =>
    rw [news_eq _ hsh] at ho
    obtain ⟨u, hu, heq⟩ := List.mem_map.mp ho
    obtain ⟨rfl, rfl⟩ := Obs.unregistered.inj heq
    obtain rfl := hg.own_sender ha hguard (Option.mem_toList.mp hu)
    exact ⟨a, ha, Or.inr rfl⟩
  | dropReceiver hsh =>
    rw [news_eq _ hsh] at ho
    cases ho

/-- Everything that is kept while no two guards of one call overlap. -/
structure Fenced (s : Sys) : Prop where
  sound : s.Sound
  wired : s.Wired
  guarded : s.Guarded
  called : s.Called
  removed : ∀ tok by_, .unregistered tok by_ ∈ s.sh.log →
    ∃ a, s.attempts[tok]? = some a ∧ (by_ = .endCall a.id ∨ by_ = .guard tok)
  finalized : ∀ id, .finalized id .cancelled ∈ s.sh.log → .endCalled id ∈ s.sh.log

theorem fenced_init (clock : ℕ) : (init cfg clock).Fenced :=
  ⟨sound_init clock, wired_init clock, guarded_init clock, called_init clock,
    (fun _ _ h => by cases h), fun _ h => by cases h⟩

theorem fenced_step (hf : s.Fenced) (hok : Exclusive s act) (h : Step cfg s act s') : s'.Fenced where
  sound := sound_step hf.sound h
  wired := wired_step hf.wired hf.sound.aligned h
  guarded := guarded_step hf.guarded hf.sound.aligned hok h
  called := called_step hf.called hf.guarded hf.wired hf.sound.aligned h
  removed := by
    intro tok by_ ho
    have hold : (∃ a, s.attempts[tok]? = some a ∧ (by_ = .endCall a.id ∨ by_ = .guard tok)) →
        ∃ a', s'.attempts[tok]? = some a' ∧ (by_ = .endCall a'.id ∨ by_ = .guard tok) := by
      rintro ⟨a, ha, hby⟩
      obtain ⟨a', ha', ⟨he, -⟩, -⟩ := h.forth hf.sound.aligned ha
      rw [← show a'.id = a.id from congrArg PendingEntry.callId he] at hby
      exact ⟨a', ha', hby⟩
    rw [h.log_eq] at ho
    rcases List.mem_append.mp ho with ho | ho
    · exact hold (hf.removed tok by_ ho)
    · exact hold (h.removes hf.guarded hok ho)
  finalized := by
    intro id ho
    rw [h.log_eq] at ho ⊢
    refine List.mem_append_left _ ?_
    rcases List.mem_append.mp ho with ho | ho
    · exact hf.finalized id ho
    · rcases h.finalizes ho with ⟨tok, a, ha, rfl, hst⟩ | ⟨d, hd, rfl⟩
      · exact hf.called.cancelled tok a ha hst
      · exact hf.called.enders d hd

/-- As long as no two guards of one call overlap, every sender stays with its attempt. -/
theorem sender_belongs {clock : ℕ} {tr : List Act}
    (h : Run (step cfg) Exclusive (init cfg clock) tr s) : s.Belongs := by
  have hf : s.Fenced := h.invariant (fenced_init clock) fun _ _ _ hf hok hstep =>
    fenced_step hf hok (step_cases hstep)
  refine ⟨hf.removed, hf.finalized, fun tok a ha hguard hsent hsending => Or.inr ?_⟩
  cases (hf.guarded.held tok a ha hguard).2 with
  | registered hl => exact ⟨tok, hl⟩
  | taken hd hpc => exact absurd hpc (hsending _ (List.mem_of_getElem? hd))
  | sent hq => exact absurd hq hsent

instance (s : Sys) (act : Act) : Decidable (Exclusive s act) :=
  match act with
  | .dispatch => inferInstanceAs (Decidable (∀ e ∈ s.disp.registering, ∀ a ∈ s.attempts,
      a.id = e.callId → a.guarding = false))
  | .tick _ | .place .. | .placing _ | .timer | .run .. | .endCall _ | .ender _ => .isTrue trivial

/-- A busy call is dispatched again after the guard of its first attempt has dropped. -/
theorem sender_belongs_redialled :
    ∃ s, exec (guarded (step redialAtOnce) Exclusive) (init redialAtOnce 0)
        (ringing ++ busyRing ++ [.run 0 .go] ++ List.replicate 9 .dispatch) = some s ∧
      s.sh.log[5]? = some (.unregistered 0 (.guard 0)) ∧ s.attempts.length = 2 ∧ s.Belongs := by
  obtain ⟨s, hs, hown, htwo⟩ : ∃ s, exec (guarded (step redialAtOnce) Exclusive) (init redialAtOnce 0)
        (ringing ++ busyRing ++ [.run 0 .go] ++ List.replicate 9 .dispatch) = some s ∧
      s.sh.log[5]? = some (.unregistered 0 (.guard 0)) ∧ s.attempts.length = 2 := ⟨_, rfl, rfl, rfl⟩
  exact ⟨s, hs, hown, htwo, sender_belongs (run_of_guarded hs)⟩

/-- It is dispatched again while that guard is still to drop, which takes the new sender
with it; the second attempt is answered and takes the closed channel for a cancel. -/
def guardsOverlap : List Act :=
  ringing ++ busyRing ++ List.replicate 9 .dispatch ++ [.run 0 .go] ++
    [.run 1 .go, .run 1 .go, .run 1 (.invited (.ok ())), .run 1 (.warmed (.ok ())),
      .run 1 (.ring (.answered ⟨8, .alaw, 20⟩)), .run 1 .go, .run 1 (.loop .cancelled),
      .run 1 (.joined ⟨.callerHangup, none, []⟩), .run 1 (.snapshot {} ⟨0, 0, 0⟩ ⟨false, 0, 0, 0⟩)] ++
    List.replicate 4 (.run 1 .go)

theorem sender_taken :
    ∃ s, exec (step redialAtOnce) (init redialAtOnce 0) guardsOverlap = some s ∧
      s.sh.log.getLast? = some (.finalized (callId 0) .cancelled) ∧ s.enders = [] ∧ ¬ s.Belongs := by
  obtain ⟨s, hs, hlast, henders, hstolen⟩ : ∃ s, exec (step redialAtOnce) (init redialAtOnce 0)
        guardsOverlap = some s ∧ s.sh.log.getLast? = some (.finalized (callId 0) .cancelled) ∧
      s.enders = [] ∧ s.sh.log[7]? = some (.unregistered 1 (.guard 0)) := ⟨_, rfl, rfl, rfl, rfl⟩
  refine ⟨s, hs, hlast, henders, fun hb => ?_⟩
  obtain ⟨a, -, hby | hby⟩ := hb.removed 1 _ (List.mem_of_getElem? hstolen) <;> cases hby

end Sys

end Kutsu
