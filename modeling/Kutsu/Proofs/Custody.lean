import Kutsu.Proofs.Steps

/-! Who is responsible for a call. An id that has been minted is in exactly one place:
with the caller placing it, in the queue, in the dispatcher's hand, with one attempt, with
an `end_call` that took it out of the queue, or settled. -/

namespace Kutsu

def PlacePc.unpushed : PlacePc → Bool
  | .insert | .count | .push => true
  | .wake | .done => false

def Placing.owes (id : CallId) (p : Placing) : Bool := p.entry.callId == id && p.pc.unpushed

def DispPc.inHand (id : CallId) : DispPc → Bool
  | .register e _ _ => e.callId == id
  | _ => false

def Attempt.owns (id : CallId) (a : Attempt) : Bool := a.id == id && a.phase.stage.owns

def EndPc.finalizes : EndPc → Bool
  | .finalize => true
  | _ => false

def Ender.owns (id : CallId) (d : Ender) : Bool := d.id == id && d.pc.finalizes

def Obs.settles (id : CallId) : Obs → Bool
  | .finalized i _ => i == id
  | .abandoned i => i == id
  | _ => false

def Shared.holds (sh : Shared) (id : CallId) : ℕ :=
  sh.queue.pending.countP (fun e => e.callId == id) + sh.log.countP (Obs.settles id)

/-- In how many places the id is. -/
def Sys.owners (s : Sys) (id : CallId) : ℕ :=
  s.placing.countP (Placing.owes id) + (s.disp.inHand id).toNat +
    s.attempts.countP (Attempt.owns id) + s.enders.countP (Ender.owns id) + s.sh.holds id

def Sys.Minted (s : Sys) (id : CallId) : Prop := ∃ n < s.sh.seq, callId n = id

def Sys.Custody (s : Sys) : Prop :=
  (∀ id, s.Minted id → s.owners id = 1) ∧ ∀ id, ¬ s.Minted id → s.owners id = 0

def Effect.gives (id : CallId) : Effect → Bool
  | .push e => e.callId == id
  | .finalize e => e.id == id
  | .abandon i => i == id
  | _ => false

namespace Shared

variable {sh : Shared} {eff : Effect} {id : CallId}

theorem seq_apply (h : eff.plain = true) : (sh.apply eff).seq = sh.seq := by
  cases eff with
  | mint => cases h
  | register | dropGuard | send => exact (rewired_apply sh rfl).seq
  | _ => rfl

theorem holds_wired (sh : Shared) (h : eff.wires = true) : (sh.apply eff).holds id = sh.holds id := by
  rw [holds, (rewired_apply sh h).queue, log_apply, List.countP_append,
    countP_entries (fun _ => rfl) (fun _ _ => rfl) fun _ _ => rfl]
  cases eff with
  | register | takeSender | send | dropGuard | dropReceiver => rfl
  | _ => cases h

theorem holds_apply (hplain : eff.plain = true)
    (hnew : ∀ e, eff = .push e → ∀ e' ∈ sh.queue.pending, e'.callId ≠ e.callId) :
    (sh.apply eff).holds id = sh.holds id + (eff.gives id).toNat := by
  cases eff with
  | mint | pop | remove | register | claimSlot | consume | markProbe | takeSender | noSender =>
    cases hplain
  | push e =>
    simp only [holds, apply, (MemQueue.push_perm (hnew e rfl)).countP_eq, List.countP_cons,
      List.countP_append, Obs.settles, Effect.gives]
    cases e.callId == id
    · simp
    · simp; omega
  | finalize e | abandon i =>
    simp only [holds, apply, Counting.countP_concat, Obs.settles, Effect.gives]
    omega
  | dropGuard | send | dropReceiver => exact holds_wired sh rfl
  | bump | dial | persist => simp [holds, apply, Obs.settles, Effect.gives]
  | _ => rfl

end Shared

theorem Stage.Step.owns_gives {cfg : ServerConfig} {sh : Shared} {tok : Token} {a : Attempt}
    {input : RunInput} {p q : Stage}
    {eff : Effect} (h : Stage.Step cfg sh tok a input p q eff) (id : CallId) :
    (a.id == id && p.owns).toNat = (a.id == id && q.owns).toNat + (eff.gives id).toNat := by
  cases h with
  | start hq | preflight hq | reportWake hq | bump d hq => rcases hq with rfl | rfl <;> rfl
  | unreported hr hq => rcases hq with rfl | rfl <;> rfl
  | ringing hq => rcases hq with rfl | rfl | rfl <;> rfl
  | talking he =>
    rcases he with rfl | ⟨q, rfl⟩ | ⟨op, rfl, -⟩ <;> rfl
  | persist he => rcases he with rfl | ⟨rec, rfl⟩ <;> rfl
  | requeuePush t | finalize c =>
    simp only [Stage.owns, Bool.and_true, Bool.and_false, Effect.gives]
    exact (Nat.zero_add _).symm
  | panic hi hs =>
    cases hp : p.owns
    · simp [Stage.owns, Effect.gives]
    · simp [Stage.owns, Effect.gives]
  | _ => rfl

theorem Stage.Step.push {cfg : ServerConfig} {sh : Shared} {tok : Token} {a : Attempt}
    {input : RunInput} {p q : Stage} {e : PendingEntry} (h : Stage.Step cfg sh tok a input p q (.push e)) :
    p = .requeuePush ∧ q = .requeueWake ∧ ∃ t, e = a.retryEntry t := by
  generalize heff : Effect.push e = eff at h
  cases h with
  | requeuePush t =>
    obtain rfl := Effect.push.inj heff
    exact ⟨rfl, rfl, t, rfl⟩
  | talking he => rcases he with rfl | ⟨q, rfl⟩ | ⟨op, rfl, -⟩ <;> cases heff
  | persist he => rcases he with rfl | ⟨rec, rfl⟩ <;> cases heff
  | panic hi hs => split_ifs at heff
  | _ => cases heff

theorem Placing.owes_gives {p : Placing} {now : ℕ} {pc : PlacePc} {eff : Effect}
    (h : p.next now = some (pc, eff)) (id : CallId) :
    (p.owes id).toNat = (Placing.owes id { p with pc }).toNat + (eff.gives id).toNat := by
  unfold next at h
  split at h
  all_goals rename_i hpc
  all_goals cases h
  all_goals simp [owes, hpc, PlacePc.unpushed, Effect.gives]

theorem Placing.push {p : Placing} {now : ℕ} {pc : PlacePc} {e : PendingEntry}
    (h : p.next now = some (pc, .push e)) : p.pc = .push ∧ e = p.entry := by
  unfold next at h
  split at h
  · cases h
  · cases h
  · rename_i hpc
    obtain ⟨-, heff⟩ := Prod.mk.inj (Option.some.inj h)
    exact ⟨hpc, (Effect.push.inj heff).symm⟩
  · cases h
  · cases h

theorem Ender.owns_gives {d : Ender} {sh : Shared} {pc : EndPc} {eff : Effect}
    (h : d.next sh = some (pc, eff)) (id : CallId) :
    (d.owns id).toNat = (Ender.owns id { d with pc }).toNat + (eff.gives id).toNat := by
  unfold next at h
  split at h
  all_goals rename_i hpc
  all_goals cases h
  all_goals simp [owns, hpc, EndPc.finalizes, Effect.gives, Closing.ending]

theorem Ender.not_push {d : Ender} {sh : Shared} {pc : EndPc} {e : PendingEntry} :
    d.next sh ≠ some (pc, .push e) := by
  intro h
  unfold next at h
  split at h
  all_goals cases h

namespace Sys

variable {cfg : ServerConfig} {s s' : Sys} {id : CallId}

theorem owners_le_one (hc : s.Custody) (id : CallId) : s.owners id ≤ 1 := by
  by_cases hm : s.Minted id
  · exact (hc.1 id hm).le
  · rw [hc.2 id hm]; exact Nat.zero_le _

theorem not_pending_of_count (h : s.sh.queue.pending.countP (fun e => e.callId == id) = 0) :
    ∀ e ∈ s.sh.queue.pending, e.callId ≠ id := by
  intro e he hid
  have := List.countP_eq_zero.mp h e he
  simp [hid] at this

/-- Whoever is about to push a call is the only one responsible for it. -/
theorem fresh_of_placing (hc : s.Custody) {i : ℕ} {p : Placing} (hp : s.placing[i]? = some p)
    (ho : p.owes id) : ∀ e ∈ s.sh.queue.pending, e.callId ≠ id := by
  have hle := owners_le_one hc id
  have hpos := Counting.countP_pos hp ho
  unfold owners Shared.holds at hle
  exact not_pending_of_count (by omega)

theorem fresh_of_attempt (hc : s.Custody) {tok : Token} {a : Attempt}
    (ha : s.attempts[tok]? = some a) (ho : a.owns id) :
    ∀ e ∈ s.sh.queue.pending, e.callId ≠ id := by
  have hle := owners_le_one hc id
  have hpos := Counting.countP_pos ha ho
  unfold owners Shared.holds at hle
  exact not_pending_of_count (by omega)

theorem placing_pushes_fresh (hc : s.Custody) {i now : ℕ} {p : Placing} {pc : PlacePc} {eff : Effect}
    (hp : s.placing[i]? = some p) (hn : p.next now = some (pc, eff)) :
    ∀ e, eff = .push e → ∀ e' ∈ s.sh.queue.pending, e'.callId ≠ e.callId := by
  rintro e rfl
  obtain ⟨hpc, rfl⟩ := Placing.push hn
  exact fresh_of_placing hc hp (by simp [Placing.owes, hpc, PlacePc.unpushed])

theorem attempt_pushes_fresh (hc : s.Custody) {tok : Token} {a : Attempt} {cfg : ServerConfig} {sh : Shared}
    {input : RunInput} {p q : Stage} {eff : Effect} (ha : s.attempts[tok]? = some a)
    (hstep : Stage.Step cfg sh tok a input p q eff) (hp : a.phase.stage = p) :
    ∀ e, eff = .push e → ∀ e' ∈ s.sh.queue.pending, e'.callId ≠ e.callId := by
  rintro e rfl
  obtain ⟨rfl, -, t, rfl⟩ := hstep.push
  have hown : a.owns a.id = true := by simp [Attempt.owns, hp, Stage.owns]
  exact fresh_of_attempt hc ha hown

theorem owner_unique (hc : s.Custody) {i j : Token} {a b : Attempt} (ha : s.attempts[i]? = some a)
    (hb : s.attempts[j]? = some b) (hoa : a.owns id) (hob : b.owns id) : i = j := by
  have hle := owners_le_one hc id
  unfold owners at hle
  exact Counting.eq_of_countP_le_one (by omega) ha hb hoa hob

theorem custody_init (clock : ℕ) : (init cfg clock).Custody := by
  constructor
  · rintro id ⟨n, hn, -⟩
    exact absurd hn (Nat.not_lt_zero n)
  · intro id _
    rfl

theorem custody_of_owners (hc : s.Custody) (hseq : s'.sh.seq = s.sh.seq)
    (h : ∀ id, s'.owners id = s.owners id) : s'.Custody := by
  have hm : ∀ id, s'.Minted id ↔ s.Minted id := fun id => by rw [Minted, hseq]; rfl
  exact ⟨fun id hid => (h id).trans (hc.1 id ((hm id).mp hid)),
    fun id hid => (h id).trans (hc.2 id fun hid' => hid ((hm id).mpr hid'))⟩

theorem custody_place (hc : s.Custody) {p : Placing} (hid : p.entry.callId = callId s.sh.seq)
    (hpc : p.pc = .insert) :
    Custody { s with sh := s.sh.apply .mint, placing := s.placing ++ [p] } := by
  set s' : Sys := { s with sh := s.sh.apply .mint, placing := s.placing ++ [p] } with hs'
  have hcount : ∀ id, s'.owners id = s.owners id + (callId s.sh.seq == id).toNat := by
    intro id
    have hp : p.owes id = (callId s.sh.seq == id) := by simp [Placing.owes, hid, hpc, PlacePc.unpushed]
    simp only [owners, hs', Counting.countP_concat, hp, Shared.holds, Shared.apply, Obs.settles,
      Bool.toNat_false]
    omega
  have hnew : ¬ s.Minted (callId s.sh.seq) := by
    rintro ⟨n, hn, heq⟩
    exact absurd (callId_injective heq) (by omega)
  have hm : ∀ id, s'.Minted id ↔ s.Minted id ∨ callId s.sh.seq = id := by
    intro id
    constructor
    · rintro ⟨n, hn, rfl⟩
      rcases Nat.lt_succ_iff_lt_or_eq.mp hn with hlt | rfl
      · exact Or.inl ⟨n, hlt, rfl⟩
      · exact Or.inr rfl
    · rintro (⟨n, hn, rfl⟩ | rfl)
      · exact ⟨n, Nat.lt_succ_of_lt hn, rfl⟩
      · exact ⟨s.sh.seq, Nat.lt_succ_self _, rfl⟩
  constructor
  · intro id hid
    rw [hcount]
    rcases (hm id).mp hid with hold | rfl
    · have hne : callId s.sh.seq ≠ id := fun heq => hnew (heq ▸ hold)
      rw [hc.1 id hold, beq_eq_false_iff_ne.mpr hne, Bool.toNat_false]
    · rw [hc.2 _ hnew, beq_self_eq_true, Bool.toNat_true]
  · intro id hid
    have hno := mt (hm id).mpr hid
    rw [hcount, hc.2 id fun h => hno (Or.inl h), beq_eq_false_iff_ne.mpr fun h => hno (Or.inr h),
      Bool.toNat_false]

theorem custody_dispatch (hc : s.Custody) (hal : s.Aligned) (h : Dispatch cfg s s') :
    s'.Custody := by
  -- moving an attempt along does not change who is responsible
  have hmove : ∀ (ph : Phase) (id : CallId) (st : Stage) {tok : Token},
      s.disp.hand = some (tok, st) → ph.stage.owns = true →
      (s.setPhase tok ph).countP (Attempt.owns id) = s.attempts.countP (Attempt.owns id) := by
    intro ph id st tok hd hph
    obtain ⟨a, ha, rfl⟩ := hal.hand tok st hd
    have ho : a.phase.stage.owns = true := DispPc.owns_of_hand hd
    have hset := Counting.countP_set (p := Attempt.owns id) (b := { a with phase := ph }) ha
    rw [setPhase_eq ha]
    simp only [Attempt.owns, Attempt.id, ho, hph] at hset ⊢
    omega
  cases h with
  | look hl =>
    refine custody_of_owners hc rfl fun id => ?_
    have hno : ∀ {p q : DispPc}, Look cfg s.sh p q → p.inHand id = false ∧ q.inHand id = false := by
      intro p q hl
      cases hl <;> exact ⟨rfl, rfl⟩
    simp only [owners, (hno hl).1, (hno hl).2]
  | @pop now probe e rest hd hq =>
    refine custody_of_owners hc rfl fun id => ?_
    have hpend := (MemQueue.popEligible_some hq).2
    simp only [owners, hd, DispPc.inHand, Shared.holds, Shared.apply, hpend, List.countP_cons,
      Counting.countP_concat, Obs.settles, Bool.toNat_false]
    cases e.callId == id
    · simp
    · simp; omega
  | register hd =>
    refine custody_of_owners hc (Shared.rewired_apply s.sh rfl).seq fun id => ?_
    rw [owners, owners, Shared.holds_wired s.sh rfl]
    simp only [hd, DispPc.inHand, Counting.countP_concat, Attempt.owns, Attempt.id, Phase.stage,
      Stage.owns, Bool.and_true, Bool.toNat_false]
    omega
  | claim hd =>
    refine custody_of_owners hc rfl fun id => ?_
    have := hmove .claimed id .registered (by rw [hd]; rfl) rfl
    simp only [owners, hd, this]
    split_ifs <;> rfl
  | mark hd =>
    refine custody_of_owners hc rfl fun id => ?_
    simp only [owners, hd]
    rfl
  | setRinging hd =>
    refine custody_of_owners hc rfl fun id => ?_
    have := hmove .rung id .claimed (by rw [hd]; rfl) rfl
    simp only [owners, hd, this]
    rfl
  | spawn hd =>
    refine custody_of_owners hc rfl fun id => ?_
    have := hmove .start id .rung (by rw [hd]; rfl) rfl
    simp only [owners, hd, this]
    rfl
  | wake hd hp =>
    refine custody_of_owners hc rfl fun id => ?_
    simp only [owners, hd]
    rfl

theorem custody_endCall (hc : s.Custody) (i : CallId) :
    Custody { s with sh := s.sh.apply (s.sh.endCall i).2
                     enders := s.enders ++ [⟨i, (s.sh.endCall i).1⟩] } := by
  rcases s.sh.endCall_cases i with ⟨e, rest, hq, h⟩ | ⟨tok, -, -, h⟩ | ⟨-, -, h⟩
  · refine custody_of_owners hc (by rw [h]; rfl) fun id => ?_
    obtain ⟨rfl, hperm⟩ := MemQueue.remove_some hq
    simp only [owners, h, Ender.owns, EndPc.finalizes, Shared.holds, Shared.apply,
      hperm.countP_eq, List.countP_cons, List.countP_append, List.countP_nil, Obs.settles,
      Bool.and_true, Bool.false_eq_true, if_false]
    omega
  · refine custody_of_owners hc (by rw [h]; rfl) fun id => ?_
    simp [owners, h, Ender.owns, EndPc.finalizes, Shared.holds, Shared.apply, Obs.settles]
  · refine custody_of_owners hc (by rw [h]; rfl) fun id => ?_
    simp [owners, h, Ender.owns, EndPc.finalizes, Shared.holds, Shared.apply, Obs.settles]

theorem custody_step {act : Act} (hc : s.Custody) (hal : s.Aligned) (h : Step cfg s act s') :
    s'.Custody := by
  cases h with
  | tick now => exact hc
  | place => exact custody_place hc rfl rfl
  | @placing i p pc eff hp hn hl =>
    have hpush := placing_pushes_fresh hc hp hn
    refine custody_of_owners hc (Shared.seq_apply (Placing.plain hn)) fun id => ?_
    have hset := Counting.countP_set (p := Placing.owes id) (b := { p with pc }) hp
    have hgive := Placing.owes_gives hn id
    simp only [owners, Shared.holds_apply (Placing.plain hn) hpush]
    omega
  | dispatch h => exact custody_dispatch hc hal h
  | timer hd ht =>
    refine custody_of_owners hc rfl fun id => ?_
    simp only [owners, hd]
    rfl
  | @run tok input a phase eff ha hn hl =>
    have hstep := Attempt.next_step hn
    have hpush := attempt_pushes_fresh hc ha hstep rfl
    refine custody_of_owners hc (Shared.seq_apply hstep.plain) fun id => ?_
    have hset := Counting.countP_set (p := Attempt.owns id) (b := { a with phase }) ha
    have hgive := hstep.owns_gives id
    simp only [owners, Shared.holds_apply hstep.plain hpush]
    simp only [Attempt.owns, Attempt.id] at hset hgive
    omega
  | endCall i hl => exact custody_endCall hc i
  | @ender i d pc eff hd hn =>
    refine custody_of_owners hc (Shared.seq_apply (Ender.plain hn)) fun id => ?_
    have hset := Counting.countP_set (p := Ender.owns id) (b := { d with pc }) hd
    have hgive := Ender.owns_gives hn id
    have hpush : ∀ e, eff = .push e → ∀ e' ∈ s.sh.queue.pending, e'.callId ≠ e.callId := by
      rintro e rfl
      exact absurd hn Ender.not_push
    simp only [owners, Shared.holds_apply (Ender.plain hn) hpush]
    omega

structure Sound (s : Sys) : Prop where
  custody : s.Custody
  aligned : s.Aligned

theorem sound_init (clock : ℕ) : (init cfg clock).Sound := ⟨custody_init clock, aligned_init clock⟩

theorem sound_step {act : Act} (hs : s.Sound) (h : Step cfg s act s') : s'.Sound :=
  ⟨custody_step hs.custody hs.aligned h, aligned_step hs.aligned h⟩

theorem sound_run {ok : Sys → Act → Prop} {clock : ℕ} {tr : List Act}
    (h : Runs.Run (step cfg) ok (init cfg clock) tr s) : s.Sound :=
  h.invariant (sound_init clock) fun _ _ _ hs _ hstep => sound_step hs (step_cases hstep)

end Sys

end Kutsu
