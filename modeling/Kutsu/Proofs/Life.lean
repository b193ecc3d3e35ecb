import Kutsu.Proofs.Custody

/-! The life of one call. Every call is in one place at a time; a step of the engine
either leaves it there or moves it along, and what happens to its record on the way
depends on the two places alone. -/

namespace Kutsu

inductive Place where
  | unminted
  | placing (pc : PlacePc)
  | pending
  | hand
  | attempt (st : Stage)
  | ender
  | settled

inductive Sys.At (s : Sys) (id : CallId) : Place → Prop where
  | unminted (h : ¬ s.Minted id) : At s id .unminted
  | placing {i : ℕ} {p : Placing} (hp : s.placing[i]? = some p) (ho : p.owes id = true) :
      At s id (.placing p.pc)
  | pending {e : PendingEntry} (he : e ∈ s.sh.queue.pending) (hid : e.callId = id) :
      At s id .pending
  | hand (h : s.disp.inHand id = true) : At s id .hand
  | attempt {tok : Token} {a : Attempt} (ha : s.attempts[tok]? = some a) (ho : a.owns id = true) :
      At s id (.attempt a.phase.stage)
  | ender {i : ℕ} {d : Ender} (hd : s.enders[i]? = some d) (ho : d.owns id = true) : At s id .ender
  | settled {o : Obs} (ho : o ∈ s.sh.log) (h : o.settles id = true) : At s id .settled

/-- The record states that go with a stage of the attempt that has the call. -/
def Stage.fits : Stage → CallState → Prop
  | .registered, st | .claimed, st | .requeueCount, st | .requeuePush, st => st = .queued
  | .rung, st | .start, st | .preflight, st | .report, st | .reportWake, st | .invite, st
  | .ringing, st | .requeueState, st | .answered, st => st = .ringing
  | .talking _, st => st = .inProgress
  | .finalizing _, st => st = .ringing ∨ st = .inProgress
  | _, _ => False

def Place.fits : Place → Option CallState → Prop
  | .unminted, x | .placing .insert, x => x = none
  | .placing _, x | .pending, x | .hand, x | .ender, x => x = some .queued
  | .attempt st, x => ∃ cs, x = some cs ∧ st.fits cs
  | .settled, x => ∀ cs, x = some cs → cs = .ended

def Evicted (x y : Option CallRecord) : Prop := (∃ r, x = some r ∧ r.state = .ended) ∧ y = none

def Act.panics : Act → Bool
  | .run _ .panic => true
  | _ => false

/-- One step in the life of a call: its places before and after, and its records. -/
inductive Life (act : Act) : Place → Option CallRecord → Place → Option CallRecord → Prop where
  | stay {v : Place} {x y : Option CallRecord} (h : y = x ∨ Evicted x y) : Life act v x v y
  | mint {x : Option CallRecord} : Life act .unminted x (.placing .insert) x
  | insert {x : Option CallRecord} {r : CallRecord}
      (hr : r.state = .queued ∧ r.disposition = none) :
      Life act (.placing .insert) x (.placing .count) (some r)
  | count {x : Option CallRecord} : Life act (.placing .count) x (.placing .push) x
  | push {x : Option CallRecord} : Life act (.placing .push) x .pending x
  | pop {x : Option CallRecord} : Life act .pending x .hand x
  | remove {x : Option CallRecord} : Life act .pending x .ender x
  | register {x : Option CallRecord} : Life act .hand x (.attempt .registered) x
  | quiet {p q : Stage} {x : Option CallRecord} (h : ∀ cs, p.fits cs → q.fits cs) :
      Life act (.attempt p) x (.attempt q) x
  | setState {p q : Stage} {x : Option CallRecord} {st : CallState}
      (h : p = .claimed ∧ q = .rung ∧ st = .ringing ∨
        p = .requeueState ∧ q = .requeueCount ∧ st = .queued ∨
        p = .answered ∧ q = .talking false ∧ st = .inProgress) :
      Life act (.attempt p) x (.attempt q) (x.map fun r => { r with state := st })
  | amend {c : Bool} {x : Option CallRecord} {f : CallRecord → CallRecord}
      (h : ∀ r, (f r).state = r.state ∧ (f r).disposition = r.disposition) :
      Life act (.attempt (.talking c)) x (.attempt (.talking c)) (x.map f)
  | repush {x : Option CallRecord} : Life act (.attempt .requeuePush) x .pending x
  | finalize {v : Place} {x y : Option CallRecord} {e : Ending}
      (hv : v = .ender ∨ ∃ c, v = .attempt (.finalizing c))
      (hy : y = x.map e.mark ∨ Evicted (x.map e.mark) y) : Life act v x .settled y
  | abandon {p : Stage} {x : Option CallRecord} (hp : act.panics) :
      Life act (.attempt p) x .settled x

def StoreOp.target : StoreOp → CallId
  | .insert rec => rec.callId
  | .setState id _ => id
  | .appendTranscript id _ => id
  | .appendAffect id _ => id
  | .setTranscript id _ => id
  | .setQuality id _ => id
  | .finalize e => e.id

def Effect.target : Effect → Option CallId
  | .store op => some op.target
  | .finalize e => some e.id
  | _ => none

/-- `finalize` marks its own record; any ended record may be evicted with it. -/
theorem CallStore.get_finalize (s : CallStore) (e : Ending) (k : CallId) :
    ((StoreOp.finalize e).apply s).get k = (s.modify e.id e.mark).get k ∨
      Evicted ((s.modify e.id e.mark).get k) (((StoreOp.finalize e).apply s).get k) := by
  rw [get_finalize_eq]
  split_ifs with hover
  · exact Or.inr ⟨ended_of_mem_overCap hover, rfl⟩
  · exact Or.inl rfl

theorem StoreOp.get_apply_ne (op : StoreOp) (s : CallStore) {k : CallId} (h : op.target ≠ k) :
    (op.apply s).get k = s.get k ∨ Evicted (s.get k) ((op.apply s).get k) := by
  have hmod : ∀ (id : CallId) (f : CallRecord → CallRecord), id ≠ k →
      (s.modify id f).get k = s.get k := fun id f hne => by
    rw [CallStore.get_modify, if_neg (Ne.symm hne)]
  cases op with
  | insert rec =>
    have hne : k ≠ rec.callId := Ne.symm h
    exact Or.inl (by rw [apply, CallStore.get_insert, if_neg hne])
  | setState id st => exact Or.inl (hmod _ _ h)
  | appendTranscript id entry => exact Or.inl (hmod _ _ h)
  | appendAffect id entry => exact Or.inl (hmod _ _ h)
  | setTranscript id ts => exact Or.inl (hmod _ _ h)
  | setQuality id q => exact Or.inl (hmod _ _ h)
  | finalize e =>
    have hget := CallStore.get_finalize s e k
    rwa [hmod e.id e.mark h] at hget

theorem Shared.get_apply_ne (sh : Shared) {eff : Effect} {k : CallId} (h : eff.target ≠ some k) :
    (sh.apply eff).store.get k = sh.store.get k ∨
      Evicted (sh.store.get k) ((sh.apply eff).store.get k) := by
  cases eff with
  | store op => exact op.get_apply_ne sh.store fun heq => h (congrArg some heq)
  | finalize e => exact (StoreOp.finalize e).get_apply_ne sh.store fun heq => h (congrArg some heq)
  | register | dropGuard | send => exact Or.inl (by rw [(rewired_apply sh rfl).store])
  | _ => exact Or.inl rfl

theorem Shared.pending_apply {sh : Shared} {eff : Effect} (h : eff.plain = true)
    (hnew : ∀ e, eff = .push e → ∀ e' ∈ sh.queue.pending, e'.callId ≠ e.callId)
    {e : PendingEntry} (he : e ∈ sh.queue.pending) : e ∈ (sh.apply eff).queue.pending := by
  cases eff with
  | pop | remove => cases h
  | push e' => exact (MemQueue.push_perm (hnew e' rfl)).mem_iff.mpr (List.mem_cons_of_mem _ he)
  | register => cases h
  | dropGuard | send => rwa [(rewired_apply sh rfl).queue]
  | _ => exact he

namespace Sys

variable {cfg : ServerConfig} {act : Act} {s s' : Sys} {id : CallId} {v w : Place}

/-- How often the id occurs at places of this kind. -/
def tally (s : Sys) (id : CallId) : Place → ℕ
  | .unminted => 0
  | .placing _ => s.placing.countP (Placing.owes id)
  | .pending => s.sh.queue.pending.countP fun e => e.callId == id
  | .hand => (s.disp.inHand id).toNat
  | .attempt _ => s.attempts.countP (Attempt.owns id)
  | .ender => s.enders.countP (Ender.owns id)
  | .settled => s.sh.log.countP (Obs.settles id)

theorem At.tally (h : s.At id v) (hv : v ≠ .unminted) : 1 ≤ s.tally id v := by
  cases h with
  | unminted => exact absurd rfl hv
  | placing hp ho => exact Counting.countP_pos hp ho
  | pending he hid => exact List.one_le_countP_iff.mpr ⟨_, he, beq_iff_eq.mpr hid⟩
  | hand h => simp [Sys.tally, h]
  | attempt ha ho => exact Counting.countP_pos ha ho
  | ender hd ho => exact Counting.countP_pos hd ho
  | settled ho h => exact List.one_le_countP_iff.mpr ⟨_, ho, h⟩

theorem tally_le_owners (s : Sys) (id : CallId) (v : Place) : s.tally id v ≤ s.owners id := by
  unfold owners Shared.holds
  cases v <;> simp only [tally] <;> omega

theorem At.minted (hc : s.Custody) (h : s.At id v) (hv : v ≠ .unminted) : s.Minted id := by
  by_contra hm
  have := h.tally hv
  have := tally_le_owners s id v
  have := hc.2 id hm
  omega

theorem at_unique (hc : s.Custody) (h : s.At id v) (h' : s.At id w) : v = w := by
  have hle := owners_le_one hc id
  simp only [owners, Shared.holds] at hle
  by_cases hv : v = .unminted
  · by_cases hw : w = .unminted
    · rw [hv, hw]
    · subst hv
      cases h with
      | unminted hm => exact absurd (h'.minted hc hw) hm
  · have hvt := h.tally hv
    by_cases hw : w = .unminted
    · subst hw
      cases h' with
      | unminted hm => exact absurd (h.minted hc hv) hm
    · have hwt := h'.tally hw
      cases h with
      | unminted => exact absurd rfl hv
      | placing hp ho =>
        cases h' with
        | placing hp' ho' =>
          obtain rfl := Counting.eq_of_countP_le_one (by omega) hp hp' ho ho'
          rw [Option.some.inj (hp.symm.trans hp')]
        | _ => simp only [Sys.tally] at hvt hwt; omega
      | attempt ha ho =>
        cases h' with
        | attempt ha' ho' =>
          obtain rfl := Counting.eq_of_countP_le_one (by omega) ha ha' ho ho'
          rw [Option.some.inj (ha.symm.trans ha')]
        | _ => simp only [Sys.tally] at hvt hwt; omega
      | pending =>
        cases h' with
        | pending => rfl
        | _ => simp only [Sys.tally] at hvt hwt; omega
      | hand =>
        cases h' with
        | hand => rfl
        | _ => simp only [Sys.tally] at hvt hwt; omega
      | ender =>
        cases h' with
        | ender => rfl
        | _ => simp only [Sys.tally] at hvt hwt; omega
      | settled =>
        cases h' with
        | settled => rfl
        | _ => simp only [Sys.tally] at hvt hwt; omega

theorem exists_at (hc : s.Custody) (id : CallId) : ∃ v, s.At id v := by
  by_cases hm : s.Minted id
  · have hone := hc.1 id hm
    simp only [owners, Shared.holds] at hone
    by_cases hpl : 1 ≤ s.placing.countP (Placing.owes id)
    · obtain ⟨p, hp, ho⟩ := List.one_le_countP_iff.mp hpl
      obtain ⟨i, hi⟩ := List.getElem?_of_mem hp
      exact ⟨_, .placing hi ho⟩
    by_cases hha : s.disp.inHand id = true
    · exact ⟨_, .hand hha⟩
    by_cases hat : 1 ≤ s.attempts.countP (Attempt.owns id)
    · obtain ⟨a, ha, ho⟩ := List.one_le_countP_iff.mp hat
      obtain ⟨i, hi⟩ := List.getElem?_of_mem ha
      exact ⟨_, .attempt hi ho⟩
    by_cases hen : 1 ≤ s.enders.countP (Ender.owns id)
    · obtain ⟨d, hd, ho⟩ := List.one_le_countP_iff.mp hen
      obtain ⟨i, hi⟩ := List.getElem?_of_mem hd
      exact ⟨_, .ender hi ho⟩
    by_cases hpe : 1 ≤ s.sh.queue.pending.countP fun e => e.callId == id
    · obtain ⟨e, he, ho⟩ := List.one_le_countP_iff.mp hpe
      exact ⟨_, .pending he (beq_iff_eq.mp ho)⟩
    · have hlog : 1 ≤ s.sh.log.countP (Obs.settles id) := by
        rw [Bool.not_eq_true] at hha
        rw [hha, Bool.toNat_false] at hone
        omega
      obtain ⟨o, ho, h⟩ := List.one_le_countP_iff.mp hlog
      exact ⟨_, .settled ho h⟩
  · exact ⟨_, .unminted hm⟩

theorem At.keep (h : s.At id v) (hmint : s'.Minted id → s.Minted id)
    (hplacing : ∀ (i : ℕ) (p : Placing),
      s.placing[i]? = some p → p.owes id = true → s'.placing[i]? = some p)
    (hqueue : ∀ e ∈ s.sh.queue.pending, e.callId = id → e ∈ s'.sh.queue.pending)
    (hhand : s.disp.inHand id = true → s'.disp.inHand id = true)
    (hatt : ∀ (tok : Token) (a : Attempt),
      s.attempts[tok]? = some a → a.owns id = true → s'.attempts[tok]? = some a)
    (hend : ∀ (i : ℕ) (d : Ender),
      s.enders[i]? = some d → d.owns id = true → s'.enders[i]? = some d)
    (hlog : s.sh.log <+: s'.sh.log) : s'.At id v := by
  cases h with
  | unminted hm => exact .unminted fun h => hm (hmint h)
  | placing hp ho => exact .placing (hplacing _ _ hp ho) ho
  | pending he hid => exact .pending (hqueue _ he hid) hid
  | hand h => exact .hand (hhand h)
  | attempt ha ho => exact .attempt (hatt _ _ ha ho) ho
  | ender hd ho => exact .ender (hend _ _ hd ho) ho
  | settled ho h => exact .settled (hlog.subset ho) h

theorem life_of_keep (hc' : s'.Custody) (hw : s'.At id w) (hkeep : s'.At id v)
    (hrec : s'.sh.store.get id = s.sh.store.get id ∨
      Evicted (s.sh.store.get id) (s'.sh.store.get id)) :
    Life act v (s.sh.store.get id) w (s'.sh.store.get id) := by
  obtain rfl := at_unique hc' hkeep hw
  exact .stay hrec

theorem life_of_move (hc : s.Custody) (hc' : s'.Custody) (hv : s.At id v) (hw : s'.At id w)
    {v₀ w₀ : Place} (hv₀ : s.At id v₀) (hw₀ : s'.At id w₀)
    (h : Life act v₀ (s.sh.store.get id) w₀ (s'.sh.store.get id)) :
    Life act v (s.sh.store.get id) w (s'.sh.store.get id) := by
  obtain rfl := at_unique hc hv hv₀
  obtain rfl := at_unique hc' hw hw₀
  exact h

end Sys

end Kutsu
