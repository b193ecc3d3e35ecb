import Mathlib.Logic.Relation
import Kutsu.Lib.Sightings
import Kutsu.Model.Tools
import Kutsu.Proofs.Lifecycle

/-! What the clients are told of a call, whoever asks: its record only goes forward, an ended one is told the same
ever after or not at all, and the result of its task is made of it. -/

namespace Kutsu

open Runs Sightings

/-- A later state of the same call's record. -/
structure CallRecord.Later (r r' : CallRecord) : Prop where
  callId : r'.callId = r.callId
  number : r'.number = r.number
  clientRef : r'.clientRef = r.clientRef
  startedMs : r'.startedMs = r.startedMs
  moves : Relation.ReflTransGen CallState.Moves r.state r'.state
  final : r.state = .ended → r' = r

namespace CallRecord

variable {r r' r'' : CallRecord}

theorem Later.refl (r : CallRecord) : r.Later r := ⟨rfl, rfl, rfl, rfl, .refl, fun _ => rfl⟩

theorem Later.trans (h : r.Later r') (h' : r'.Later r'') : r.Later r'' := by
  refine ⟨h'.callId.trans h.callId, h'.number.trans h.number, h'.clientRef.trans h.clientRef,
    h'.startedMs.trans h.startedMs, h.moves.trans h'.moves, fun hend => ?_⟩
  obtain rfl := h.final hend
  exact h'.final hend

instance : IsPreorder CallRecord Later where
  refl := .refl
  trans _ _ _ := .trans

/-- What is not changed any more once the record is there. -/
def origin (r : CallRecord) : CallId × String × Option String × ℕ := (r.callId, r.number, r.clientRef, r.startedMs)

end CallRecord

theorem StoreOp.origin_apply (op : StoreOp) (s : CallStore) {k : CallId} {r' : CallRecord}
    (h : (op.apply s).get k = some r') :
    (∃ r, s.get k = some r ∧ r.origin = r'.origin) ∨ op = .insert r' ∧ k = r'.callId := by
  have hmod : ∀ (id : CallId) (f : CallRecord → CallRecord), (∀ r, (f r).origin = r.origin) →
      (s.modify id f).get k = some r' → ∃ r, s.get k = some r ∧ r.origin = r'.origin := by
    intro id f hf h
    rw [CallStore.get_modify] at h
    split_ifs at h
    · obtain ⟨r, hr, rfl⟩ := Option.map_eq_some_iff.mp h
      exact ⟨r, hr, (hf r).symm⟩
    · exact ⟨r', h, rfl⟩
  cases op with
  | insert rec =>
    rw [apply, CallStore.get_insert] at h
    split_ifs at h with hk
    · obtain rfl := Option.some.inj h
      exact Or.inr ⟨rfl, hk⟩
    · exact Or.inl ⟨r', h, rfl⟩
  | finalize e =>
    rcases CallStore.get_finalize s e k with heq | ⟨-, hnone⟩
    · rw [heq] at h
      exact Or.inl (hmod e.id e.mark (fun _ => rfl) h)
    · rw [hnone] at h
      cases h
  | setState id state => exact Or.inl (hmod id (fun r => { r with state }) (fun _ => rfl) h)
  | appendTranscript id entry =>
    exact Or.inl (hmod id (fun r => { r with transcript := r.transcript ++ [entry] }) (fun _ => rfl) h)
  | appendAffect id entry => exact Or.inl (hmod id (fun r => { r with affect := r.affect ++ [entry] }) (fun _ => rfl) h)
  | setTranscript id transcript => exact Or.inl (hmod id (fun r => { r with transcript }) (fun _ => rfl) h)
  | setQuality id quality => exact Or.inl (hmod id (fun r => { r with quality }) (fun _ => rfl) h)

def Effect.insertion : Effect → Option CallRecord
  | .store (.insert rec) => some rec
  | _ => none

theorem Shared.origin_apply (sh : Shared) {eff : Effect} {k : CallId} {r' : CallRecord}
    (h : (sh.apply eff).store.get k = some r') :
    (∃ r, sh.store.get k = some r ∧ r.origin = r'.origin) ∨ eff.insertion = some r' ∧ k = r'.callId := by
  cases eff with
  | store op =>
    rcases op.origin_apply sh.store h with hold | ⟨rfl, hk⟩
    · exact Or.inl hold
    · exact Or.inr ⟨rfl, hk⟩
  | finalize e =>
    rcases (StoreOp.finalize e).origin_apply sh.store h with hold | ⟨hins, -⟩
    · exact Or.inl hold
    · cases hins
  | register | dropGuard | send =>
    rw [(rewired_apply sh rfl).store] at h
    exact Or.inl ⟨r', h, rfl⟩
  | _ => exact Or.inl ⟨r', h, rfl⟩

theorem Stage.Step.insertion_eq_none {cfg : ServerConfig} {sh : Shared} {tok : Token} {a : Attempt} {input : RunInput}
    {p q : Stage} {eff : Effect} (h : Stage.Step cfg sh tok a input p q eff) : eff.insertion = none := by
  cases h with
  | talking h =>
    rcases h with rfl | ⟨q, rfl⟩ | ⟨op, rfl, ⟨_, rfl⟩ | ⟨_, rfl⟩ | ⟨_, rfl⟩ | ⟨_, rfl⟩⟩ <;> rfl
  | persist h => rcases h with rfl | ⟨rec, rfl⟩ <;> rfl
  | panic hi hp => split_ifs <;> rfl
  | _ => rfl

theorem CallState.not_moves_ended {st : CallState} : ¬ CallState.Moves .ended st := by
  intro h
  cases h with
  | finish hne => exact hne rfl

theorem Life.settled_of_none {act : Act} {v w : Place} {x y : Option CallRecord} (h : Life act v x w y)
    (hv : v ≠ .unminted ∧ v ≠ .placing .insert) (hw : w.fits none) : w = .settled := by
  cases w with
  | settled => rfl
  | unminted =>
    cases h
    exact absurd rfl hv.1
  | placing pc =>
    cases pc with
    | insert =>
      cases h with
      | stay => exact absurd rfl hv.2
      | mint => exact absurd rfl hv.1
    | _ => cases hw
  | attempt st =>
    obtain ⟨cs, hcs, -⟩ := hw
    cases hcs
  | _ => cases hw

namespace Sys

variable {cfg : ServerConfig} {s s' : Sys} {act : Act} {id : CallId} {r r' : CallRecord}

theorem origin_step (h : Step cfg s act s') (hr' : s'.sh.store.get id = some r') :
    (∃ r, s.sh.store.get id = some r ∧ r.origin = r'.origin) ∨
      ∃ p ∈ s.placing, p.pc = .insert ∧ r' = p.record s.sh.clock ∧ id = p.entry.callId := by
  have hquiet : ∀ eff : Effect, eff.insertion = none → s'.sh = s.sh.apply eff →
      (∃ r, s.sh.store.get id = some r ∧ r.origin = r'.origin) ∨
        ∃ p ∈ s.placing, p.pc = .insert ∧ r' = p.record s.sh.clock ∧ id = p.entry.callId := by
    intro eff heff hsh
    rw [hsh] at hr'
    rcases s.sh.origin_apply hr' with hold | ⟨hins, -⟩
    · exact Or.inl hold
    · rw [heff] at hins
      cases hins
  cases h with
  | tick now => exact Or.inl ⟨r', hr', rfl⟩
  | timer => exact Or.inl ⟨r', hr', rfl⟩
  | place => exact hquiet .mint rfl rfl
  | @placing i p pc eff hp hn hl =>
    rcases s.sh.origin_apply hr' with hold | ⟨hins, hk⟩
    · exact Or.inl hold
    · refine Or.inr ⟨p, List.mem_of_getElem? hp, ?_⟩
      unfold Placing.next at hn
      split at hn
      all_goals
        rename_i hpc
        cases hn
      all_goals cases hins
      exact ⟨hpc, rfl, hk⟩
  | dispatch h =>
    cases h with
    | look | spawn => exact hquiet .idle rfl rfl
    | pop => exact hquiet (.pop _ _ _) rfl rfl
    | register => exact hquiet (.register _) rfl rfl
    | claim => exact hquiet .claimSlot rfl rfl
    | mark => exact hquiet (.markProbe _ _) rfl rfl
    | setRinging => exact hquiet (.store _) rfl rfl
    | wake => exact hquiet .consume rfl rfl
  | run ha hn hl => exact hquiet _ (Attempt.next_step hn).insertion_eq_none rfl
  | endCall i hl =>
    refine hquiet (s.sh.endCall i).2 ?_ rfl
    rcases s.sh.endCall_cases i with ⟨e, rest, -, h⟩ | ⟨tok, -, -, h⟩ | ⟨-, -, h⟩
    all_goals
      rw [h]
      rfl
  | @ender i d pc eff hd hn =>
    refine hquiet eff ?_ rfl
    unfold Ender.next at hn
    split at hn
    all_goals cases hn
    all_goals rfl

/-- The `n`th call placed has the `n`th id. -/
def Ticketed (s : Sys) : Prop :=
  s.placing.length = s.sh.seq ∧ ∀ n p, s.placing[n]? = some p → p.entry.callId = callId n

/-- The record is of the call that was placed under this id, and has a disposition when it is ended. -/
def Recorded (s : Sys) (id : CallId) (r : CallRecord) : Prop :=
  (r.disposition.isSome ↔ r.state = .ended) ∧ ∃ n p, s.placing[n]? = some p ∧ id = callId n ∧ r.callId = id ∧
    r.number = p.entry.number ∧ r.clientRef = p.clientRef

theorem placings_step (h : Step cfg s act s') :
    (s'.sh.seq = s.sh.seq ∧ s'.placing.length = s.placing.length ∧ ∀ n : ℕ,
        s'.placing[n]?.map (fun p => (p.entry, p.clientRef)) = s.placing[n]?.map fun p => (p.entry, p.clientRef)) ∨
      ∃ p, s'.sh.seq = s.sh.seq + 1 ∧ s'.placing = s.placing ++ [p] ∧ p.entry.callId = callId s.sh.seq := by
  have hkept : s'.sh.seq = s.sh.seq → s'.placing = s.placing → s'.sh.seq = s.sh.seq ∧
      s'.placing.length = s.placing.length ∧ ∀ n : ℕ,
        s'.placing[n]?.map (fun p => (p.entry, p.clientRef)) = s.placing[n]?.map fun p => (p.entry, p.clientRef) := by
    intro hseq hplacing
    rw [hplacing]
    exact ⟨hseq, rfl, fun _ => rfl⟩
  cases h with
  | tick | timer => exact Or.inl (hkept rfl rfl)
  | place number scenario eligibleAtMs attempt clientRef => exact Or.inr ⟨_, rfl, rfl, rfl⟩
  | @placing i p pc eff hp hn hl =>
    refine Or.inl ⟨Shared.seq_apply (Placing.plain hn), List.length_set .., fun n => ?_⟩
    rw [List.getElem?_set]
    split_ifs with hi
    · subst hi
      rw [List.getElem?_eq_getElem ‹_›] at hp ⊢
      cases hp
      rfl
    · subst hi
      rw [List.getElem?_eq_none (not_lt.mp ‹_›)]
    · rfl
  | dispatch h =>
    cases h with
    | register => exact Or.inl (hkept (Shared.rewired_apply s.sh rfl).seq rfl)
    | _ => exact Or.inl (hkept rfl rfl)
  | run ha hn hl => exact Or.inl (hkept (Shared.seq_apply (Attempt.next_step hn).plain) rfl)
  | endCall i hl =>
    refine Or.inl (hkept ?_ rfl)
    rcases s.sh.endCall_cases i with ⟨e, rest, -, h⟩ | ⟨tok, -, -, h⟩ | ⟨-, -, h⟩
    all_goals
      rw [h]
      rfl
  | ender hd hn => exact Or.inl (hkept (Shared.seq_apply (Ender.plain hn)) rfl)

theorem ticketed_step (hf : s.Ticketed) (h : Step cfg s act s') : s'.Ticketed := by
  rcases placings_step h with ⟨hseq, hlen, hmap⟩ | ⟨p, hseq, hplacing, hid⟩
  · refine ⟨by rw [hseq, hlen, hf.1], fun n p hp => ?_⟩
    have hn := hmap n
    rw [hp] at hn
    obtain ⟨p₀, hp₀, heq⟩ := Option.map_eq_some_iff.mp hn.symm
    rw [← (Prod.mk.inj heq).1]
    exact hf.2 n p₀ hp₀
  · refine ⟨by rw [hseq, hplacing, List.length_append, hf.1]; rfl, fun n q hq => ?_⟩
    rw [hplacing] at hq
    rcases Counting.getElem?_concat_cases hq with hold | ⟨rfl, rfl⟩
    · exact hf.2 n q hold
    · rw [hid, hf.1]

theorem Recorded.step (hr : s.Recorded id r) (h : Step cfg s act s') : s'.Recorded id r := by
  obtain ⟨hmark, n, p, hp, hid⟩ := hr
  rcases placings_step h with ⟨-, -, hmap⟩ | ⟨q, -, hplacing, -⟩
  · have hn := hmap n
    rw [hp] at hn
    obtain ⟨p', hp', heq⟩ := Option.map_eq_some_iff.mp hn
    obtain ⟨hentry, href⟩ := Prod.mk.inj heq
    exact ⟨hmark, n, p', hp', hentry ▸ href ▸ hid⟩
  · refine ⟨hmark, n, p, ?_, hid⟩
    rw [hplacing, List.getElem?_append_left (List.getElem?_eq_some_iff.mp hp).1, hp]

/-- Every record in the store is of the call placed under its id. -/
theorem recorded_step (ho : s.Orderly) (hf : s.Ticketed) (hall : ∀ id r, s.sh.store.get id = some r → s.Recorded id r)
    (hcalm : ¬ act.panics) (h : Step cfg s act s') :
    ∀ id r, s'.sh.store.get id = some r → s'.Recorded id r := by
  intro id r' hr'
  have hmark := (orderly_step ho hcalm h).marked id r' hr'
  rcases origin_step h hr' with ⟨r, hr, horigin⟩ | ⟨p, hp, -, rfl, rfl⟩
  · obtain ⟨-, n, p, hp, hid⟩ := (hall id r hr).step h
    simp only [CallRecord.origin, Prod.mk.injEq] at horigin
    obtain ⟨hcall, hnum, href, -⟩ := horigin
    exact ⟨hmark, n, p, hp, hcall ▸ hnum ▸ href ▸ hid⟩
  · obtain ⟨n, hn⟩ := List.getElem?_of_mem hp
    have hthere : s.Recorded p.entry.callId (p.record s.sh.clock) :=
      ⟨by simp [Placing.record], n, p, hn, hf.2 n p hn, rfl, rfl, rfl⟩
    exact ⟨hmark, (hthere.step h).2⟩

/-- The record was ended and has been evicted; no one will insert it again. -/
def Forgotten (s : Sys) (id : CallId) : Prop := s.sh.store.get id = none ∧ s.At id .settled

/-- A record that is there goes forward, or it was ended and is forgotten. -/
theorem later_step (ho : s.Orderly) (hcalm : ¬ act.panics) (h : Step cfg s act s') (hr : s.sh.store.get id = some r) :
    (∃ r', s'.sh.store.get id = some r' ∧ r.Later r') ∨ s'.Forgotten id := by
  obtain ⟨v, hv⟩ := exists_at ho.custody id
  obtain ⟨w, hw⟩ := exists_at (custody_step ho.custody ho.aligned h) id
  have hfit := ho.fits id v hv
  have hlife := life_step ho.custody ho.aligned h hv hw
  have hfit' := (hlife.move_fits (fun _ => hcalm) hfit).2
  have hnew : v ≠ .unminted ∧ v ≠ .placing .insert := by
    rw [hr] at hfit
    constructor
    all_goals
      rintro rfl
      cases hfit
  cases hget : s'.sh.store.get id with
  | none =>
    rw [hget] at hfit'
    obtain rfl := hlife.settled_of_none hnew hfit'
    exact Or.inr ⟨hget, hw⟩
  | some r' =>
    refine Or.inl ⟨r', rfl, ?_⟩
    have horigin : r.origin = r'.origin := by
      rcases origin_step h hget with ⟨r₀, hr₀, heq⟩ | ⟨p, hp, hpc, -, rfl⟩
      · rw [hr] at hr₀
        obtain rfl := Option.some.inj hr₀
        exact heq
      · obtain ⟨i, hi⟩ := List.getElem?_of_mem hp
        have hat : s.At p.entry.callId (.placing p.pc) := .placing hi (by simp [Placing.owes, hpc, PlacePc.unpushed])
        rw [hpc] at hat
        exact absurd (at_unique ho.custody hv hat) hnew.2
    simp only [CallRecord.origin, Prod.mk.injEq] at horigin
    obtain ⟨hid, hnum, href, hstart⟩ := horigin
    obtain ⟨z, hmove, hz⟩ := ho.recordStep hcalm h id
    rw [hr] at hmove
    rw [hget] at hz
    have hz : z = some r' := by
      rcases hz with hz | hev
      · exact hz.symm
      · cases hev.2
    subst hz
    cases hmove with
    | kept hst hend => exact ⟨hid.symm, hnum.symm, href.symm, hstart.symm, hst ▸ .refl, hend⟩
    | moved hm =>
      refine ⟨hid.symm, hnum.symm, href.symm, hstart.symm, .single hm, fun hend => ?_⟩
      rw [hend] at hm
      exact absurd hm CallState.not_moves_ended

theorem forgotten_step (ho : s.Orderly) (h : Step cfg s act s') (hf : s.Forgotten id) : s'.Forgotten id := by
  obtain ⟨hnone, hv⟩ := hf
  obtain ⟨w, hw⟩ := exists_at (custody_step ho.custody ho.aligned h) id
  cases life_step ho.custody ho.aligned h hv hw with
  | stay hy =>
    refine ⟨?_, hw⟩
    rcases hy with hy | ⟨⟨r, hr, -⟩, -⟩
    · exact hy.trans hnone
    · rw [hnone] at hr
      cases hr
  | finalize hv =>
    rcases hv with hv | ⟨c, hv⟩ <;> cases hv

end Sys

def ToolAct.panics : ToolAct → Bool
  | .mcp (.engine a) => a.panics
  | _ => false

theorem Mcp.moves {cfg : ServerConfig} {w w' : Mcp} {act : McpAct} (h : w.step cfg act = some w')
    (hcalm : ∀ a, act = .engine a → ¬ a.panics) :
    w'.sys = w.sys ∨ ∃ a, ¬ a.panics ∧ Sys.Step cfg w.sys a w'.sys := by
  cases act with
  | engine a =>
    obtain ⟨sys, hsys, h⟩ := Option.bind_eq_some_iff.mp h
    split_ifs at h
    obtain rfl := Option.some.inj h
    exact Or.inr ⟨a, hcalm a rfl, Sys.step_cases hsys⟩
  | placeCall args supports =>
    simp only [step] at h
    split_ifs at h
    · obtain rfl := Option.some.inj h
      exact Or.inl rfl
    · obtain ⟨sys, hsys, h⟩ := Option.bind_eq_some_iff.mp h
      obtain rfl := Option.some.inj h
      exact Or.inr ⟨_, fun hp => (by cases hp), Sys.step_cases hsys⟩
  | respond j =>
    obtain ⟨r, -, h⟩ := Option.bind_eq_some_iff.mp h
    obtain ⟨p, -, h⟩ := Option.bind_eq_some_iff.mp h
    split_ifs at h
    all_goals
      obtain rfl := Option.some.inj h
      exact Or.inl rfl

/-- What the answer shows was read. -/
def Answer.Shown (seen : List (CallId × Option CallRecord)) : Answer → Prop
  | .status id rec _ _ | .transcript id rec => (id, some rec) ∈ seen
  | .error message => ∃ id, message = unknownCall id ∧ (id, none) ∈ seen
  | .signalled id _ => ∃ rec, (id, some rec) ∈ seen

/-- What a request that is still open has read. -/
def Request.Shown (seen : List (CallId × Option CallRecord)) : Request → Prop
  | .status id rec => (id, some rec) ∈ seen
  | .ending id | .ended id _ => ∃ rec, (id, some rec) ∈ seen

theorem Answer.Shown.mono {a : Answer} {seen seen' : List (CallId × Option CallRecord)}
    (h : a.Shown seen) (hsub : seen ⊆ seen') : a.Shown seen' := by
  cases a with
  | status | transcript => exact hsub h
  | error message =>
    obtain ⟨id, hmsg, hin⟩ := h
    exact ⟨id, hmsg, hsub hin⟩
  | signalled =>
    obtain ⟨rec, hin⟩ := h
    exact ⟨rec, hsub hin⟩

theorem Request.Shown.mono {r : Request} {seen seen' : List (CallId × Option CallRecord)}
    (h : r.Shown seen) (hsub : seen ⊆ seen') : r.Shown seen' := by
  cases r with
  | status => exact hsub h
  | ending | ended =>
    obtain ⟨rec, hin⟩ := h
    exact ⟨rec, hsub hin⟩

namespace Tools

variable {cfg : ServerConfig} {w w' : Tools} {act : ToolAct}

/-- How a task ends: the client cancels it before its call is seen to end, or it is given what the ended record
makes of it, if that is still there. -/
def Settles (w : Tools) (t : TaskFuture) (res : Except TaskExit TaskResult) : Prop :=
  (t.ended = false ∧ res = .error .cancelled) ∨
    t.ended = true ∧ ((∃ r time, (t.callId, some r) ∈ w.seen ∧ r.state = .ended ∧ res = taskResultFor time (some r)) ∨
      w.mcp.sys.Forgotten t.callId ∧ res = .error (.error "call ended with no disposition" none))

/-- What the future knows was read. -/
structure Follows (w : Tools) (t : TaskFuture) : Prop where
  ended : t.ended = true → ∃ r, (t.callId, some r) ∈ w.seen ∧ r.state = .ended
  result : ∀ res, t.result = some res → w.Settles t res

structure Told (w : Tools) : Prop where
  orderly : w.mcp.sys.Orderly
  ticketed : w.mcp.sys.Ticketed
  stored : ∀ id r, w.get id = some r → w.mcp.sys.Recorded id r
  recorded : ∀ id r, (id, some r) ∈ w.seen → w.mcp.sys.Recorded id r
  seen : Coherent CallRecord.Later w.get w.mcp.sys.Forgotten w.seen
  requests : ∀ r ∈ w.requests, r.Shown w.seen
  answers : ∀ a ∈ w.answers, a.Shown w.seen
  futures : ∀ t ∈ w.futures, w.Follows t

theorem Follows.mono {t : TaskFuture} (h : w.Follows t) (hsub : w.seen ⊆ w'.seen)
    (hgone : ∀ id, w.mcp.sys.Forgotten id → w'.mcp.sys.Forgotten id) : w'.Follows t := by
  refine ⟨fun he => ?_, fun res hres => ?_⟩
  · obtain ⟨r, hin, hend⟩ := h.ended he
    exact ⟨r, hsub hin, hend⟩
  · rcases h.result res hres with hc | ⟨he, ⟨r, time, hin, hend, heq⟩ | ⟨hg, heq⟩⟩
    · exact Or.inl hc
    · exact Or.inr ⟨he, Or.inl ⟨r, time, hsub hin, hend, heq⟩⟩
    · exact Or.inr ⟨he, Or.inr ⟨hgone _ hg, heq⟩⟩

theorem follows_of_open {t : TaskFuture} (he : t.ended = false)
    (hres : t.result = none ∨ t.result = some (.error .cancelled)) : w.Follows t := by
  refine ⟨fun h => ?_, fun res hr => ?_⟩
  · rw [he] at h
    cases h
  · rcases hres with h | h
    · rw [h] at hr
      cases hr
    · rw [h] at hr
      exact Or.inl ⟨he, (Option.some.inj hr).symm⟩

theorem Told.move (cfg : ServerConfig) (ht : w.Told)
    (hsys : w'.mcp.sys = w.mcp.sys ∨ ∃ a, ¬ a.panics ∧ Sys.Step cfg w.mcp.sys a w'.mcp.sys) (hseen : w'.seen = w.seen)
    (hreq : ∀ r ∈ w'.requests, r ∈ w.requests ∨ r.Shown w.seen)
    (hans : ∀ a ∈ w'.answers, a ∈ w.answers ∨ a.Shown w.seen)
    (hfut : ∀ t ∈ w'.futures, t ∈ w.futures ∨
      t.ended = false ∧ (t.result = none ∨ t.result = some (.error .cancelled))) : w'.Told := by
  have hmoved : (w'.mcp.sys.Orderly ∧ w'.mcp.sys.Ticketed ∧ (∀ id r, w'.get id = some r → w'.mcp.sys.Recorded id r)) ∧
      (∀ id r, w.mcp.sys.Recorded id r → w'.mcp.sys.Recorded id r) ∧
      (∀ id, w.mcp.sys.Forgotten id → w'.mcp.sys.Forgotten id) ∧
      ∀ id r, w.get id = some r → (∃ r', w'.get id = some r' ∧ r.Later r') ∨ w'.mcp.sys.Forgotten id := by
    unfold get
    rcases hsys with heq | ⟨a, hcalm, hstep⟩
    · rw [heq]
      exact ⟨⟨ht.orderly, ht.ticketed, ht.stored⟩, fun _ _ h => h, fun _ h => h,
        fun id r hr => Or.inl ⟨r, hr, .refl r⟩⟩
    · exact ⟨⟨Sys.orderly_step ht.orderly hcalm hstep, Sys.ticketed_step ht.ticketed hstep,
          Sys.recorded_step ht.orderly ht.ticketed ht.stored hcalm hstep⟩,
        fun id r hr => hr.step hstep, fun id h => Sys.forgotten_step ht.orderly hstep h,
        fun id r hr => Sys.later_step ht.orderly hcalm hstep hr⟩
  obtain ⟨⟨ho, hnum, hstored⟩, hrecorded, hgone, hlater⟩ := hmoved
  refine ⟨ho, hnum, hstored, fun id r hr => hrecorded id r (ht.recorded id r (hseen ▸ hr)),
    hseen ▸ ht.seen.move hlater hgone, fun r hr => ?_, fun a ha => ?_, fun t hin => ?_⟩
  · rw [hseen]
    rcases hreq r hr with hold | hnew
    · exact ht.requests r hold
    · exact hnew
  · rw [hseen]
    rcases hans a ha with hold | hnew
    · exact ht.answers a hold
    · exact hnew
  · rcases hfut t hin with hold | ⟨he, hres⟩
    · exact (ht.futures t hold).mono (hseen ▸ List.Subset.refl _) hgone
    · exact follows_of_open he hres

theorem Told.read (ht : w.Told) {id : CallId} (hmcp : w'.mcp = w.mcp) (hseen : w'.seen = w.seen ++ [(id, w.get id)])
    (hreq : ∀ r ∈ w'.requests, r ∈ w.requests ∨ r.Shown w'.seen)
    (hans : ∀ a ∈ w'.answers, a ∈ w.answers ∨ a.Shown w'.seen)
    (hfut : ∀ t ∈ w'.futures, t ∈ w.futures ∨ w'.Follows t) : w'.Told := by
  have hsub : w.seen ⊆ w'.seen := hseen ▸ List.subset_append_left _ _
  have hget : w'.get = w.get := by
    unfold get
    rw [hmcp]
  refine ⟨hmcp ▸ ht.orderly, hmcp ▸ ht.ticketed, ?_, fun i r hr => ?_, ?_, fun r hr => ?_, fun a ha => ?_,
    fun t hin => ?_⟩
  · rw [hget, hmcp]
    exact ht.stored
  · rw [hmcp]
    rcases List.mem_append.mp (hseen ▸ hr) with hold | hnew
    · exact ht.recorded i r hold
    · obtain ⟨rfl, hread⟩ := Prod.mk.inj (List.mem_singleton.mp hnew)
      exact ht.stored i r hread.symm
  · rw [hget, hmcp, hseen]
    exact ht.seen.read (fun k hk => hk.1) id
  · rcases hreq r hr with hold | hnew
    · exact (ht.requests r hold).mono hsub
    · exact hnew
  · rcases hans a ha with hold | hnew
    · exact (ht.answers a hold).mono hsub
    · exact hnew
  · rcases hfut t hin with hold | hnew
    · exact (ht.futures t hold).mono hsub fun _ h => hmcp ▸ h
    · exact hnew

theorem told_step (ht : w.Told) (hcalm : ¬ act.panics) (h : w.step cfg act = some w') : w'.Told := by
  have hlast : ∀ id x, w.get id = x → (id, x) ∈ w.seen ++ [(id, w.get id)] := fun id x hx => by
    rw [hx]
    exact List.mem_append_right _ (List.mem_singleton.mpr rfl)
  have hbegun : ∀ {id} (r : Request), r.Shown (w.seen ++ [(id, w.get id)]) → ((w.read id).begin r).Told :=
    fun r hr => ht.read rfl rfl (fun r' hr' => by
      rcases List.mem_append.mp hr' with hold | hnew
      · exact Or.inl hold
      · exact Or.inr (List.mem_singleton.mp hnew ▸ hr)) (fun _ => Or.inl) fun _ => Or.inl
  have hanswered : ∀ {id} (a : Answer), a.Shown (w.seen ++ [(id, w.get id)]) → ((w.read id).answer a).Told :=
    fun a ha => ht.read rfl rfl (fun _ => Or.inl) (fun a' ha' => by
      rcases List.mem_append.mp ha' with hold | hnew
      · exact Or.inl hold
      · exact Or.inr (List.mem_singleton.mp hnew ▸ ha)) fun _ => Or.inl
  cases act with
  | mcp a =>
    obtain ⟨mcp, hmcp, rfl⟩ := Option.map_eq_some_iff.mp h
    have hpanic : ∀ b, a = .engine b → ¬ b.panics := by
      rintro b rfl
      exact hcalm
    refine ht.move cfg (Mcp.moves hmcp hpanic) rfl (fun _ => Or.inl) (fun _ => Or.inl) fun t hin => ?_
    rcases List.mem_append.mp hin with hold | hnew
    · exact Or.inl hold
    · obtain ⟨task, -, rfl⟩ := List.mem_map.mp hnew
      exact Or.inr ⟨rfl, Or.inl rfl⟩
  | getCallStatus id =>
    obtain rfl := Option.some.inj h
    cases hget : w.get id with
    | none => exact hanswered _ ⟨id, rfl, hlast id none hget⟩
    | some rec => exact hbegun _ (hlast id _ hget)
  | getCallTranscript id =>
    obtain rfl := Option.some.inj h
    cases hget : w.get id with
    | none => exact hanswered _ ⟨id, rfl, hlast id none hget⟩
    | some rec => exact hanswered _ (hlast id _ hget)
  | endCall id =>
    obtain rfl := Option.some.inj h
    cases hget : w.get id with
    | none => exact hanswered _ ⟨id, rfl, hlast id none hget⟩
    | some rec => exact hbegun _ ⟨rec, hlast id _ hget⟩
  | request k =>
    obtain ⟨r, hr, h⟩ := Option.bind_eq_some_iff.mp h
    have hshown := ht.requests r (List.mem_of_getElem? hr)
    have hrest : ∀ r' ∈ w.requests.eraseIdx k, r' ∈ w.requests ∨ r'.Shown w.seen := fun r' hr' =>
      Or.inl (List.mem_of_mem_eraseIdx hr')
    cases r with
    | status id rec =>
      obtain rfl := Option.some.inj h
      refine ht.move cfg (Or.inl rfl) rfl hrest (fun a ha => ?_) fun _ => Or.inl
      rcases List.mem_append.mp ha with hold | hnew
      · exact Or.inl hold
      · exact Or.inr (List.mem_singleton.mp hnew ▸ hshown)
    | ending id =>
      obtain ⟨sys, hsys, h⟩ := Option.bind_eq_some_iff.mp h
      obtain rfl := Option.some.inj h
      refine ht.move cfg (Or.inr ⟨_, fun hp => (by cases hp), Sys.step_cases hsys⟩) rfl (fun r' hr' => ?_)
        (fun _ => Or.inl) fun _ => Or.inl
      rcases List.mem_append.mp hr' with hold | hnew
      · exact hrest r' hold
      · exact Or.inr (List.mem_singleton.mp hnew ▸ hshown)
    | ended id i =>
      obtain ⟨d, -, h⟩ := Option.bind_eq_some_iff.mp h
      split at h
      · obtain rfl := Option.some.inj h
        refine ht.move cfg (Or.inl rfl) rfl hrest (fun a ha => ?_) fun _ => Or.inl
        rcases List.mem_append.mp ha with hold | hnew
        · exact Or.inl hold
        · exact Or.inr (List.mem_singleton.mp hnew ▸ hshown)
      · cases h
  | watch i =>
    obtain ⟨t, hi, h⟩ := Option.bind_eq_some_iff.mp h
    split_ifs at h with hopen
    obtain rfl := Option.some.inj h
    refine ht.read rfl rfl (fun _ => Or.inl) (fun _ => Or.inl) fun u hu => ?_
    rcases List.mem_or_eq_of_mem_set hu with hold | rfl
    · exact Or.inl hold
    · refine Or.inr ⟨fun hended => ?_, fun res hres => ?_⟩
      · obtain ⟨r, hr, hst⟩ := (Option.any_eq_true _ _).mp hended
        exact ⟨r, hlast _ _ hr, of_decide_eq_true hst⟩
      · have hnone : t.result = none := by simpa using (Bool.or_eq_false_iff.mp (eq_false_of_ne_true hopen)).2
        rw [hnone] at hres
        cases hres
  | finish i =>
    obtain ⟨t, hi, h⟩ := Option.bind_eq_some_iff.mp h
    split_ifs at h with hopen
    obtain rfl := Option.some.inj h
    obtain ⟨hended, -⟩ := Bool.and_eq_true_iff.mp hopen
    obtain ⟨r, hin, hend⟩ := (ht.futures t (List.mem_of_getElem? hi)).ended hended
    refine ht.read rfl rfl (fun _ => Or.inl) (fun _ => Or.inl) fun u hu => ?_
    rcases List.mem_or_eq_of_mem_set hu with hold | rfl
    · exact Or.inl hold
    · refine Or.inr ⟨fun _ => ⟨r, List.mem_append_left _ hin, hend⟩, fun res hres => ?_⟩
      obtain rfl := Option.some.inj hres
      refine Or.inr ⟨hended, ?_⟩
      -- the record that was ended is still the same, or has been evicted since
      rcases ht.seen.now _ _ hin with ⟨r', hr', hlater⟩ | hgone
      · obtain rfl := hlater.final hend
        exact Or.inl ⟨r', w.clock, List.mem_append_left _ hin, hend, by rw [hr']⟩
      · have hnone : w.get t.callId = none := hgone.1
        exact Or.inr ⟨hgone, by rw [hnone]; rfl⟩
  | cancel i =>
    obtain ⟨t, hi, h⟩ := Option.bind_eq_some_iff.mp h
    split_ifs at h with hopen
    obtain ⟨sys, hsys, h⟩ := Option.bind_eq_some_iff.mp h
    obtain rfl := Option.some.inj h
    refine ht.move cfg (Or.inr ⟨_, fun hp => (by cases hp), Sys.step_cases hsys⟩) rfl (fun _ => Or.inl)
      (fun _ => Or.inl) fun u hu => ?_
    rcases List.mem_or_eq_of_mem_set hu with hold | rfl
    · exact Or.inl hold
    · exact Or.inr ⟨(Bool.or_eq_false_iff.mp (eq_false_of_ne_true hopen)).1, Or.inr rfl⟩

def Calm (_ : Tools) (act : ToolAct) : Prop := ¬ act.panics

instance (w : Tools) (act : ToolAct) : Decidable (Calm w act) := inferInstanceAs (Decidable (¬ _))

theorem told_init (cfg : ServerConfig) (clock : ℕ) : (init cfg clock).Told where
  orderly := Sys.orderly_init clock
  ticketed := ⟨rfl, fun _ _ h => (by cases h)⟩
  stored id r hr := by
    have hget : (init cfg clock).get id = none := CallStore.get_withHistoryCap _ _
    rw [hget] at hr
    cases hr
  recorded _ _ h := by cases h
  seen := .nil
  requests _ h := by cases h
  answers _ h := by cases h
  futures _ h := by cases h

/-- Whatever the clients ask for and in whatever order, their answers fit: what is read of a call is the record it
was placed with, each time as it was before or later in its life; an ended one is read the same ever after, or not
at all from some time on; every answer and every result of a task is made of what was read. -/
theorem clients_told {clock : ℕ} {tr : List ToolAct}
    (h : Run (step cfg) Calm (init cfg clock) tr w) :
    (∀ id r, (id, some r) ∈ w.seen → w.mcp.sys.Recorded id r) ∧
      (w.seen.Pairwise fun x y => ∀ r r', x = (y.1, some r) → y.2 = some r' → r.Later r') ∧
      (∀ id r r', ¬ [(id, some r), (id, none), (id, some r')].Sublist w.seen) ∧
      (∀ a ∈ w.answers, a.Shown w.seen) ∧
      ∀ t ∈ w.futures, ∀ res, t.result = some res → w.Settles t res := by
  have ht : w.Told := h.invariant (told_init cfg clock) fun _ _ _ ht hcalm hs => told_step ht hcalm hs
  exact ⟨ht.recorded, ht.seen.order, ht.seen.final, ht.answers,
    fun t hin res hres => (ht.futures t hin).result res hres⟩

/-- A call rings and is not answered; its status is asked for while it waits in the queue and once more when its
task is settled. -/
def unanswered : List ToolAct :=
  [.mcp (.placeCall { toNumber := "100", goalSchema := .null } true)] ++
    List.replicate 4 (.mcp (.engine (.placing 0))) ++
    [.mcp (.respond 0), .getCallStatus (callId 0), .request 0, .watch 0] ++
    List.replicate 9 (.mcp (.engine .dispatch)) ++
    ([.go, .go, .invited (.ok ()), .warmed (.ok ()), .ring (.terminated (.failed .noAnswer "408")), .go, .go].map
      fun input => .mcp (.engine (.run 0 input))) ++
    [.watch 0, .finish 0, .getCallTranscript (callId 0)]

theorem clients_told_unanswered :
    ∃ w, exec (guarded (step Sys.noPreflight) Calm) (init Sys.noPreflight 0) unanswered = some w ∧
      w.seen.length = 5 ∧ w.answers.length = 2 ∧ (w.futures.map (·.result.isSome)) = [true] ∧
      (∀ a ∈ w.answers, a.Shown w.seen) ∧ ∀ t ∈ w.futures, ∀ res, t.result = some res → w.Settles t res := by
  have hrun : (exec (guarded (step Sys.noPreflight) Calm) (init Sys.noPreflight 0) unanswered).any (fun w =>
      w.seen.length = 5 ∧ w.answers.length = 2 ∧ (w.futures.map (·.result.isSome)) = [true]) := by
    decide +kernel
  obtain ⟨w, hw, hend⟩ := (Option.any_eq_true _ _).mp hrun
  obtain ⟨hseen, hanswers, hfutures⟩ := of_decide_eq_true hend
  obtain ⟨-, -, -, hshown, hsettles⟩ := clients_told (run_of_guarded hw)
  exact ⟨w, hw, hseen, hanswers, hfutures, hshown, hsettles⟩

end Tools

end Kutsu
