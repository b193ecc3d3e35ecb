import Kutsu.Lib.Count
import Kutsu.Lib.Run
import Kutsu.Proofs.Stages

/-! What one step of the engine can do, said once: the dispatcher's moves, and every
party's step as a change of its own place together with one effect. -/

namespace Kutsu

/-- The attempt the dispatcher has in hand, and how far it has brought it. -/
def DispPc.hand : DispPc → Option (Token × Stage)
  | .claim tok _ _ => some (tok, .registered)
  | .mark tok _ | .setRinging tok => some (tok, .claimed)
  | .spawn tok => some (tok, .rung)
  | _ => none

theorem DispPc.hand_stage {pc : DispPc} {tok : Token} {st : Stage} (h : pc.hand = some (tok, st)) :
    st = .registered ∨ st = .claimed ∨ st = .rung := by
  unfold hand at h
  split at h
  all_goals cases h
  · exact Or.inl rfl
  · exact Or.inr (Or.inl rfl)
  · exact Or.inr (Or.inl rfl)
  · exact Or.inr (Or.inr rfl)

theorem DispPc.owns_of_hand {pc : DispPc} {tok : Token} {st : Stage}
    (h : pc.hand = some (tok, st)) : st.owns = true := by
  rcases hand_stage h with rfl | rfl | rfl <;> rfl

theorem Stage.Step.not_hand {cfg : ServerConfig} {sh : Shared} {tok : Token} {a : Attempt}
    {input : RunInput} {p q : Stage} {eff : Effect}
    (h : Stage.Step cfg sh tok a input p q eff) : ¬ (p = .registered ∨ p = .claimed ∨ p = .rung) := by
  rintro (rfl | rfl | rfl) <;> cases h <;> contradiction

/-- The effects that take no call out of the queue, mint no id, touch no registration and
are not the dispatcher's own. -/
def Effect.plain : Effect → Bool
  | .mint | .pop _ _ _ | .remove _ _ | .register _ | .claimSlot | .consume | .markProbe _ _
  | .takeSender _ _ | .noSender _ => false
  | _ => true

theorem Stage.Step.plain {cfg : ServerConfig} {sh : Shared} {tok : Token} {a : Attempt}
    {input : RunInput} {p q : Stage} {eff : Effect}
    (h : Stage.Step cfg sh tok a input p q eff) : eff.plain = true := by
  cases h with
  | talking he => rcases he with rfl | ⟨q, rfl⟩ | ⟨op, rfl, -⟩ <;> rfl
  | persist he => rcases he with rfl | ⟨rec, rfl⟩ <;> rfl
  | panic hi hs => split_ifs <;> rfl
  | _ => rfl

theorem Placing.plain {p : Placing} {now : ℕ} {pc : PlacePc} {eff : Effect}
    (h : p.next now = some (pc, eff)) : eff.plain = true := by
  unfold next at h
  split at h
  all_goals cases h
  all_goals rfl

theorem Ender.plain {d : Ender} {sh : Shared} {pc : EndPc} {eff : Effect}
    (h : d.next sh = some (pc, eff)) : eff.plain = true := by
  unfold next at h
  split at h
  all_goals cases h
  all_goals rfl

/-- The effects on `cancels` and on the channels. -/
def Effect.wires : Effect → Bool
  | .register _ | .takeSender _ _ | .send _ _ | .dropGuard _ _ | .dropReceiver _ => true
  | _ => false

def Obs.situated : Obs → Bool
  | .minted _ | .accepted _ _ | .unregistered _ _ => true
  | _ => false

/-- What an effect adds to the history in any state. -/
def Effect.entries : Effect → List Obs
  | .finalize e => [.finalized e.id e.disposition]
  | .bump id d => [.bumped id d]
  | .push e => [.pushed e]
  | .pop now e _ => [.popped now e]
  | .remove e _ => [.endCalled e.callId, .removed e]
  | .dial id => [.dialled id]
  | .takeSender _ id | .noSender id => [.endCalled id]
  | .abandon id => [.abandoned id]
  | .persist rec => [.persisted rec]
  | _ => []

namespace Shared

/-- What `end_call` does first: it takes the call out of the queue, or the sender out of
`cancels`, or finds neither. -/
theorem endCall_cases (sh : Shared) (id : CallId) :
    (∃ e rest, sh.queue.remove id = some (e, rest) ∧ sh.endCall id = (.finalize, .remove e rest)) ∨
    (∃ tok, sh.queue.remove id = none ∧ sh.cancels.lookup id = some tok ∧
      sh.endCall id = (.send tok, .takeSender tok id)) ∨
    (sh.queue.remove id = none ∧ sh.cancels.lookup id = none ∧
      sh.endCall id = (.returned false, .noSender id)) := by
  unfold endCall
  cases hq : sh.queue.remove id with
  | some er => exact Or.inl ⟨er.1, er.2, rfl, rfl⟩
  | none =>
    cases hc : sh.cancels.lookup id with
    | some tok => exact Or.inr (Or.inl ⟨tok, rfl, rfl, rfl⟩)
    | none => exact Or.inr (Or.inr ⟨rfl, rfl, rfl⟩)

/-- What an effect adds to the history. -/
def logs (sh : Shared) : Effect → List Obs
  | .mint => [.minted (callId sh.seq)]
  | .finalize e => [.finalized e.id e.disposition]
  | .bump id d => [.bumped id d]
  | .push e => [.pushed e]
  | .pop now e _ => [.popped now e]
  | .remove e _ => [.endCalled e.callId, .removed e, .accepted e.callId (sh.stateOf e.callId)]
  | .register id =>
    (sh.cancels.lookup id).toList.map fun tok => .unregistered tok (.registration sh.chans.length)
  | .dial id => [.dialled id]
  | .takeSender tok id => [.endCalled id, .unregistered tok (.endCall id)]
  | .noSender id => [.endCalled id]
  | .send tok id => if sh.hears tok then [.accepted id (sh.stateOf id)] else []
  | .dropGuard tok id => (sh.cancels.lookup id).toList.map fun t => .unregistered t (.guard tok)
  | .abandon id => [.abandoned id]
  | .persist rec => [.persisted rec]
  | _ => []

/-- Only `cancels`, the channels and the history differ. -/
structure Rewired (sh sh' : Shared) : Prop where
  clock : sh'.clock = sh.clock
  seq : sh'.seq = sh.seq
  store : sh'.store = sh.store
  queue : sh'.queue = sh.queue
  running : sh'.running = sh.running
  permit : sh'.permit = sh.permit
  counters : sh'.counters = sh.counters
  breaker : sh'.breaker = sh.breaker

theorem rewired_apply (sh : Shared) {eff : Effect} (h : eff.wires = true) : sh.Rewired (sh.apply eff) := by
  cases eff with
  | register i | dropGuard tok i =>
    simp only [apply]
    unfold unregister
    split <;> exact ⟨rfl, rfl, rfl, rfl, rfl, rfl, rfl, rfl⟩
  | send tok i =>
    simp only [apply]
    split_ifs <;> exact ⟨rfl, rfl, rfl, rfl, rfl, rfl, rfl, rfl⟩
  | takeSender | dropReceiver => exact ⟨rfl, rfl, rfl, rfl, rfl, rfl, rfl, rfl⟩
  | _ => cases h

theorem filter_logs (sh : Shared) (eff : Effect) :
    (sh.logs eff).filter (fun o => !o.situated) = eff.entries := by
  cases eff with
  | register i | dropGuard tok i =>
    simp only [logs]
    cases sh.cancels.lookup i <;> rfl
  | send tok i =>
    simp only [logs]
    split_ifs <;> rfl
  | _ => rfl

theorem countP_entries {p : Obs → Bool} (hm : ∀ id, p (.minted id) = false) (ha : ∀ id st, p (.accepted id st) = false)
    (hu : ∀ tok by_, p (.unregistered tok by_) = false) (sh : Shared) (eff : Effect) :
    (sh.logs eff).countP p = eff.entries.countP p := by
  have hp : ∀ o, p o = (p o && !o.situated) := by
    intro o
    cases o with
    | minted id => rw [hm, Bool.false_and]
    | accepted id st => rw [ha, Bool.false_and]
    | unregistered tok by_ => rw [hu, Bool.false_and]
    | _ => exact (Bool.and_true _).symm
  rw [← filter_logs sh, List.countP_filter]
  exact congrArg (List.countP · _) (funext hp)

theorem mem_logs {sh : Shared} {eff : Effect} {o : Obs} (ho : o.situated = false) :
    o ∈ sh.logs eff ↔ o ∈ eff.entries := by
  rw [← filter_logs sh, List.mem_filter, ho]
  exact (and_iff_left rfl).symm

theorem finalize_of_logs {sh : Shared} {eff : Effect} {id : CallId} {d : Disposition}
    (h : .finalized id d ∈ sh.logs eff) : ∃ e, eff = .finalize e ∧ e.id = id ∧ e.disposition = d := by
  have h := (mem_logs rfl).mp h
  cases eff with
  | finalize e =>
    obtain ⟨rfl, rfl⟩ := Obs.finalized.inj (List.mem_singleton.mp h)
    exact ⟨e, rfl, rfl, rfl⟩
  | _ => simp [Effect.entries] at h

theorem log_apply (sh : Shared) (eff : Effect) : (sh.apply eff).log = sh.log ++ sh.logs eff := by
  cases eff with
  | register id | dropGuard tok id =>
    simp only [apply, logs]
    unfold unregister
    cases sh.cancels.lookup id with
    | some t => rfl
    | none => exact (List.append_nil _).symm
  | send =>
    simp only [apply, logs]
    split_ifs
    · rfl
    · exact (List.append_nil _).symm
  | mint | finalize | bump | push | pop | remove | dial | takeSender | noSender | abandon
  | persist => rfl
  | _ => exact (List.append_nil _).symm

theorem log_prefix (sh : Shared) (eff : Effect) : sh.log <+: (sh.apply eff).log := by
  rw [log_apply]
  exact List.prefix_append _ _

theorem length_unregister (sh : Shared) (id : CallId) (by_ : Remover) :
    (sh.unregister id by_).chans.length = sh.chans.length := by
  unfold unregister
  split
  · exact List.length_modify ..
  · rfl

theorem length_register (sh : Shared) (id : CallId) :
    (sh.apply (.register id)).chans.length = sh.chans.length + 1 := by
  simp only [apply, List.length_append, length_unregister]
  rfl

theorem length_apply {sh : Shared} {eff : Effect} (h : eff.plain = true) :
    (sh.apply eff).chans.length = sh.chans.length := by
  cases eff with
  | register => cases h
  | dropGuard => exact length_unregister _ _ _
  | send =>
    simp only [apply]
    split_ifs
    · exact List.length_modify ..
    · rfl
  | dropReceiver => exact List.length_modify ..
  | _ => rfl

end Shared

namespace Sys

inductive Look (cfg : ServerConfig) (sh : Shared) : DispPc → DispPc → Prop where
  | lock : Look cfg sh .lock .capCheck
  | full (h : cfg.maxConcurrentChannels ≤ sh.running) :
      Look cfg sh .capCheck (.readRunning none)
  | room (h : sh.running < cfg.maxConcurrentChannels) : Look cfg sh .capCheck .readClock
  | readClock : Look cfg sh .readClock (.decide sh.clock)
  | dispatch {now : ℕ} (h : sh.breaker.decision now = .dispatch) :
      Look cfg sh (.decide now) (.pop now false)
  | probe {now : ℕ} (h : sh.breaker.decision now = .probe) :
      Look cfg sh (.decide now) (.pop now true)
  | held {now untilMs : ℕ} (h : sh.breaker.decision now = .hold untilMs) :
      Look cfg sh (.decide now) (.readRunning (some untilMs))
  | noneEligible {now : ℕ} {probe : Bool} (h : sh.queue.popEligible now = none) :
      Look cfg sh (.pop now probe) (.readRunning none)
  | stillRoom {hold : Option ℕ} (h : sh.running < cfg.maxConcurrentChannels) :
      Look cfg sh (.readRunning hold) (.peek hold)
  | stillFull {hold : Option ℕ} (h : cfg.maxConcurrentChannels ≤ sh.running) :
      Look cfg sh (.readRunning hold) (.arm (sleepUntil none hold))
  | peek {hold : Option ℕ} :
      Look cfg sh (.peek hold) (.arm (sleepUntil sh.queue.peekNextEligibleAt hold))
  | arm {target : Option ℕ} :
      Look cfg sh (.arm target) (.parked (target.map fun t => max t sh.clock))

inductive Dispatch (cfg : ServerConfig) (s : Sys) : Sys → Prop where
  | look {pc : DispPc} (h : Look cfg s.sh s.disp pc) : Dispatch cfg s { s with disp := pc }
  | pop {now : ℕ} {probe : Bool} {e : PendingEntry} {rest : MemQueue}
      (hd : s.disp = .pop now probe) (hq : s.sh.queue.popEligible now = some (e, rest)) :
      Dispatch cfg s
        { s with disp := .register e now probe, sh := s.sh.apply (.pop now e rest) }
  | register {e : PendingEntry} {now : ℕ} {probe : Bool} (hd : s.disp = .register e now probe) :
      Dispatch cfg s { s with
        disp := .claim s.attempts.length now probe
        attempts := s.attempts ++ [⟨e, probe, .registered⟩]
        sh := s.sh.apply (.register e.callId) }
  | claim {tok : Token} {now : ℕ} {probe : Bool} (hd : s.disp = .claim tok now probe) :
      Dispatch cfg s { s with
        disp := if probe then .mark tok now else .setRinging tok
        attempts := s.setPhase tok .claimed
        sh := s.sh.apply .claimSlot }
  | mark {tok : Token} {now : ℕ} (hd : s.disp = .mark tok now) :
      Dispatch cfg s { s with
        disp := .setRinging tok
        sh := s.sh.apply (.markProbe now (preflightMaxWindowMs cfg.netCheck)) }
  | setRinging {tok : Token} (hd : s.disp = .setRinging tok) :
      Dispatch cfg s { s with
        disp := .spawn tok
        attempts := s.setPhase tok .rung
        sh := s.sh.apply (.store (.setState (s.idOf tok) .ringing)) }
  | spawn {tok : Token} (hd : s.disp = .spawn tok) :
      Dispatch cfg s { s with disp := .lock, attempts := s.setPhase tok .start }
  | wake {timer : Option ℕ} (hd : s.disp = .parked timer) (hp : s.sh.permit = true) :
      Dispatch cfg s { s with disp := .lock, sh := s.sh.apply .consume }

inductive Step (cfg : ServerConfig) (s : Sys) : Act → Sys → Prop where
  | tick (now : ℕ) : Step cfg s (.tick now) { s with sh := { s.sh with clock := now } }
  | place (number : String) (scenario : ScenarioConfig) (eligibleAtMs attempt : ℕ)
      (clientRef : Option String) :
      Step cfg s (.place number scenario eligibleAtMs attempt clientRef) { s with
        sh := s.sh.apply .mint
        placing := s.placing ++
          [⟨⟨callId s.sh.seq, number, scenario, eligibleAtMs, attempt⟩, clientRef, .insert⟩] }
  | placing {i : ℕ} {p : Placing} {pc : PlacePc} {eff : Effect} (hp : s.placing[i]? = some p)
      (hn : p.next s.sh.clock = some (pc, eff)) (hl : s.lockFree eff = true) :
      Step cfg s (.placing i)
        { s with sh := s.sh.apply eff, placing := s.placing.set i { p with pc } }
  | dispatch {s' : Sys} (h : Dispatch cfg s s') : Step cfg s .dispatch s'
  | timer {t : ℕ} (hd : s.disp = .parked (some t)) (ht : t ≤ s.sh.clock) :
      Step cfg s .timer { s with disp := .lock }
  | run {tok : Token} {input : RunInput} {a : Attempt} {phase : Phase} {eff : Effect}
      (ha : s.attempts[tok]? = some a) (hn : a.next cfg s.sh tok input = some (phase, eff))
      (hl : s.lockFree eff = true) :
      Step cfg s (.run tok input)
        { s with sh := s.sh.apply eff, attempts := s.attempts.set tok { a with phase } }
  | endCall (id : CallId) (hl : s.disp.locked = false) :
      Step cfg s (.endCall id)
        { s with sh := s.sh.apply (s.sh.endCall id).2
                 enders := s.enders ++ [⟨id, (s.sh.endCall id).1⟩] }
  | ender {i : ℕ} {d : Ender} {pc : EndPc} {eff : Effect} (hd : s.enders[i]? = some d)
      (hn : d.next s.sh = some (pc, eff)) :
      Step cfg s (.ender i)
        { s with sh := s.sh.apply eff, enders := s.enders.set i { d with pc } }

variable {cfg : ServerConfig} {s s' : Sys} {a : Act}

theorem Step.shared (h : Step cfg s a s') :
    (∃ eff, s'.sh = s.sh.apply eff) ∨ ∃ now, s'.sh = { s.sh with clock := now } := by
  cases h with
  | tick now => exact Or.inr ⟨now, rfl⟩
  | timer => exact Or.inl ⟨.idle, rfl⟩
  | dispatch h =>
    refine Or.inl ?_
    cases h with
    | look | spawn => exact ⟨.idle, rfl⟩
    | pop => exact ⟨.pop _ _ _, rfl⟩
    | register => exact ⟨.register _, rfl⟩
    | claim => exact ⟨.claimSlot, rfl⟩
    | mark => exact ⟨.markProbe _ _, rfl⟩
    | setRinging => exact ⟨.store _, rfl⟩
    | wake => exact ⟨.consume, rfl⟩
  | place => exact Or.inl ⟨.mint, rfl⟩
  | @placing i p pc eff => exact Or.inl ⟨eff, rfl⟩
  | @run tok input att phase eff => exact Or.inl ⟨eff, rfl⟩
  | endCall id => exact Or.inl ⟨(s.sh.endCall id).2, rfl⟩
  | @ender i d pc eff => exact Or.inl ⟨eff, rfl⟩

def news (s s' : Sys) : List Obs := s'.sh.log.drop s.sh.log.length

theorem Step.log_eq (h : Step cfg s a s') : s'.sh.log = s.sh.log ++ news s s' := by
  unfold news
  rcases h.shared with ⟨eff, hsh⟩ | ⟨now, hsh⟩
  · rw [hsh, Shared.log_apply, List.drop_left]
  · rw [hsh]
    simp

theorem news_eq (eff : Effect) (h : s'.sh = s.sh.apply eff) : news s s' = s.sh.logs eff := by
  rw [news, h, Shared.log_apply, List.drop_left]

/-- The steps that may add to the history, each with its effect. -/
inductive Origin (cfg : ServerConfig) (s : Sys) : Act → Effect → Prop where
  | place {number : String} {scenario : ScenarioConfig} {eligibleAtMs attempt : ℕ}
      {clientRef : Option String} : Origin cfg s (.place number scenario eligibleAtMs attempt clientRef) .mint
  | placing {i : ℕ} {p : Placing} {pc : PlacePc} {eff : Effect} (hp : s.placing[i]? = some p)
      (hn : p.next s.sh.clock = some (pc, eff)) : Origin cfg s (.placing i) eff
  | pop {now : ℕ} {probe : Bool} {e : PendingEntry} {rest : MemQueue} (hd : s.disp = .pop now probe)
      (hq : s.sh.queue.popEligible now = some (e, rest)) : Origin cfg s .dispatch (.pop now e rest)
  | register {e : PendingEntry} {now : ℕ} {probe : Bool} (hd : s.disp = .register e now probe) :
      Origin cfg s .dispatch (.register e.callId)
  | run {tok : Token} {input : RunInput} {a : Attempt} {phase : Phase} {eff : Effect}
      (ha : s.attempts[tok]? = some a) (hn : a.next cfg s.sh tok input = some (phase, eff)) :
      Origin cfg s (.run tok input) eff
  | endCall (id : CallId) : Origin cfg s (.endCall id) (s.sh.endCall id).2
  | ender {i : ℕ} {d : Ender} {pc : EndPc} {eff : Effect} (hd : s.enders[i]? = some d)
      (hn : d.next s.sh = some (pc, eff)) : Origin cfg s (.ender i) eff

theorem Step.origin (h : Step cfg s a s') {o : Obs} (ho : o ∈ news s s') :
    ∃ eff, s'.sh = s.sh.apply eff ∧ o ∈ s.sh.logs eff ∧ Origin cfg s a eff := by
  have hfrom : ∀ eff, s'.sh = s.sh.apply eff → Origin cfg s a eff →
      ∃ eff, s'.sh = s.sh.apply eff ∧ o ∈ s.sh.logs eff ∧ Origin cfg s a eff :=
    fun eff hsh horigin => ⟨eff, hsh, news_eq eff hsh ▸ ho, horigin⟩
  have hquiet : ∀ eff, s'.sh = s.sh.apply eff → s.sh.logs eff = [] → False := by
    intro eff hsh hno
    rw [news_eq eff hsh, hno] at ho
    cases ho
  cases h with
  | tick => exact absurd ho (by simp [news])
  | place => exact hfrom .mint rfl .place
  | @placing i p pc eff hp hn => exact hfrom eff rfl (.placing hp hn)
  | dispatch h =>
    cases h with
    | pop hd hq => exact hfrom (.pop _ _ _) rfl (.pop hd hq)
    | register hd => exact hfrom (.register _) rfl (.register hd)
    | look | spawn => exact (hquiet .idle rfl rfl).elim
    | claim => exact (hquiet .claimSlot rfl rfl).elim
    | mark => exact (hquiet (.markProbe _ _) rfl rfl).elim
    | setRinging => exact (hquiet (.store _) rfl rfl).elim
    | wake => exact (hquiet .consume rfl rfl).elim
  | timer => exact (hquiet .idle rfl rfl).elim
  | @run tok input b phase eff ha hn => exact hfrom eff rfl (.run ha hn)
  | endCall id => exact hfrom (s.sh.endCall id).2 rfl (.endCall id)
  | @ender i d pc eff hd hn => exact hfrom eff rfl (.ender hd hn)

theorem dispatch_cases (h : s.dispatch cfg = some s') : Dispatch cfg s s' := by
  unfold dispatch at h
  split at h <;> rename_i hd
  · obtain rfl := Option.some.inj h
    exact .look (hd ▸ .lock)
  · split_ifs at h with hcap
    · obtain rfl := Option.some.inj h
      exact .look (hd ▸ .full hcap)
    · obtain rfl := Option.some.inj h
      exact .look (hd ▸ .room (Nat.lt_of_not_le hcap))
  · obtain rfl := Option.some.inj h
    exact .look (hd ▸ .readClock)
  · split at h
    · rename_i hdec
      obtain rfl := Option.some.inj h
      exact .look (hd ▸ .dispatch hdec)
    · rename_i hdec
      obtain rfl := Option.some.inj h
      exact .look (hd ▸ .probe hdec)
    · rename_i hdec
      obtain rfl := Option.some.inj h
      exact .look (hd ▸ .held hdec)
  · split at h
    · rename_i hq
      obtain rfl := Option.some.inj h
      exact .pop hd hq
    · rename_i hq
      obtain rfl := Option.some.inj h
      exact .look (hd ▸ .noneEligible hq)
  · obtain rfl := Option.some.inj h
    exact .register hd
  · obtain rfl := Option.some.inj h
    exact .claim hd
  · obtain rfl := Option.some.inj h
    exact .mark hd
  · obtain rfl := Option.some.inj h
    exact .setRinging hd
  · obtain rfl := Option.some.inj h
    exact .spawn hd
  · split_ifs at h with hcap
    · obtain rfl := Option.some.inj h
      exact .look (hd ▸ .stillRoom hcap)
    · obtain rfl := Option.some.inj h
      exact .look (hd ▸ .stillFull (Nat.le_of_not_lt hcap))
  · obtain rfl := Option.some.inj h
    exact .look (hd ▸ .peek)
  · obtain rfl := Option.some.inj h
    exact .look (hd ▸ .arm)
  · split_ifs at h with hp
    obtain rfl := Option.some.inj h
    exact .wake hd hp

theorem step_cases (h : s.step cfg a = some s') : Step cfg s a s' := by
  cases a with
  | tick now =>
    obtain rfl := Option.some.inj h
    exact .tick now
  | place number scenario eligibleAtMs attempt clientRef =>
    obtain rfl := Option.some.inj h
    exact .place number scenario eligibleAtMs attempt clientRef
  | placing i =>
    obtain ⟨p, hp, h⟩ := Option.bind_eq_some_iff.mp h
    obtain ⟨⟨pc, eff⟩, hn, h⟩ := Option.bind_eq_some_iff.mp h
    dsimp only at h
    split_ifs at h with hl
    obtain rfl := Option.some.inj h
    exact .placing hp hn hl
  | dispatch => exact .dispatch (dispatch_cases h)
  | timer =>
    simp only [step] at h
    split at h
    · rename_i t hd
      split_ifs at h with ht
      obtain rfl := Option.some.inj h
      exact .timer hd ht
    · cases h
  | run tok input =>
    obtain ⟨att, ha, h⟩ := Option.bind_eq_some_iff.mp h
    obtain ⟨⟨phase, eff⟩, hn, h⟩ := Option.bind_eq_some_iff.mp h
    dsimp only at h
    split_ifs at h with hl
    obtain rfl := Option.some.inj h
    exact .run ha hn hl
  | endCall id =>
    simp only [step] at h
    split_ifs at h with hl
    obtain rfl := Option.some.inj h
    exact .endCall id (Bool.not_eq_true _ ▸ hl)
  | ender i =>
    obtain ⟨d, hd, h⟩ := Option.bind_eq_some_iff.mp h
    obtain ⟨⟨pc, eff⟩, hn, h⟩ := Option.bind_eq_some_iff.mp h
    obtain rfl := Option.some.inj h
    exact .ender hd hn

theorem setPhase_eq {tok : Token} {att : Attempt} (h : s.attempts[tok]? = some att) (ph : Phase) :
    s.setPhase tok ph = s.attempts.set tok { att with phase := ph } :=
  Counting.modify_eq_set _ h

theorem idOf_eq {tok : Token} {att : Attempt} (h : s.attempts[tok]? = some att) :
    s.idOf tok = att.id := by
  rw [idOf, h]; rfl

/-- There is a channel for every attempt, and the attempt the dispatcher has in hand is
where the dispatcher has brought it. -/
structure Aligned (s : Sys) : Prop where
  chans : s.sh.chans.length = s.attempts.length
  hand : ∀ tok st, s.disp.hand = some (tok, st) → ∃ a, s.attempts[tok]? = some a ∧ a.phase.stage = st

theorem aligned_init (clock : ℕ) : (init cfg clock).Aligned :=
  ⟨rfl, fun _ _ h => by cases h⟩

theorem look_hand {sh : Shared} {p q : DispPc} (h : Look cfg sh p q) : q.hand = none := by
  cases h <;> rfl

theorem aligned_dispatch (hal : s.Aligned) (h : Dispatch cfg s s') : s'.Aligned := by
  have hmove : ∀ (ph : Phase) (st : Stage) {tok : Token}, s.disp.hand = some (tok, st) →
      (s.setPhase tok ph).length = s.attempts.length ∧
        ∃ a, (s.setPhase tok ph)[tok]? = some a ∧ a.phase.stage = ph.stage := by
    intro ph st tok hd
    obtain ⟨a, ha, -⟩ := hal.hand tok st hd
    rw [setPhase_eq ha]
    have hlt := (List.getElem?_eq_some_iff.mp ha).1
    exact ⟨List.length_set, _, List.getElem?_set_self hlt, rfl⟩
  cases h with
  | look hl =>
    exact ⟨hal.chans, fun tok st h => by rw [look_hand hl] at h; cases h⟩
  | pop hd hq => exact ⟨hal.chans, fun tok st h => by cases h⟩
  | @register e now probe hd =>
    refine ⟨?_, fun tok st h => ?_⟩
    · rw [Shared.length_register, List.length_append, hal.chans]; rfl
    · cases h
      exact ⟨_, List.getElem?_concat_length .., rfl⟩
  | @claim tok now probe hd =>
    obtain ⟨hlen, hhand⟩ := hmove .claimed .registered (by rw [hd]; rfl)
    refine ⟨hal.chans.trans hlen.symm, fun tok' st h => ?_⟩
    cases probe <;> cases h <;> exact hhand
  | mark hd =>
    refine ⟨hal.chans, fun tok' st h => ?_⟩
    cases h
    exact hal.hand _ _ (hd ▸ rfl)
  | setRinging hd =>
    obtain ⟨hlen, hhand⟩ := hmove .rung .claimed (by rw [hd]; rfl)
    refine ⟨hal.chans.trans hlen.symm, fun tok' st h => ?_⟩
    cases h
    exact hhand
  | spawn hd =>
    obtain ⟨hlen, -⟩ := hmove .start .rung (by rw [hd]; rfl)
    exact ⟨hal.chans.trans hlen.symm, fun tok st h => by cases h⟩
  | wake hd hp => exact ⟨hal.chans, fun tok st h => by cases h⟩

theorem aligned_step (hal : s.Aligned) (h : Step cfg s a s') : s'.Aligned := by
  cases h with
  | tick now => exact ⟨hal.chans, hal.hand⟩
  | place => exact ⟨hal.chans, hal.hand⟩
  | placing hp hn hl =>
    exact ⟨(Shared.length_apply (Placing.plain hn)).trans hal.chans, hal.hand⟩
  | dispatch h => exact aligned_dispatch hal h
  | timer hd ht => exact ⟨hal.chans, fun tok st h => by cases h⟩
  | run ha hn hl =>
    have hstep := Attempt.next_step hn
    refine ⟨?_, fun tok' st hd => ?_⟩
    · rw [Shared.length_apply hstep.plain, List.length_set]
      exact hal.chans
    · -- the attempt in the dispatcher's hand is not running yet
      obtain ⟨a', ha', hst⟩ := hal.hand tok' st hd
      refine ⟨a', ?_, hst⟩
      rw [List.getElem?_set_ne, ha']
      rintro rfl
      rw [ha] at ha'
      obtain rfl := Option.some.inj ha'
      exact hstep.not_hand (hst ▸ DispPc.hand_stage hd)
  | endCall id hl =>
    refine ⟨?_, hal.hand⟩
    rcases s.sh.endCall_cases id with ⟨e, rest, -, h⟩ | ⟨tok, -, -, h⟩ | ⟨-, -, h⟩
    all_goals
      rw [h]
      exact hal.chans
  | ender hd hn =>
    exact ⟨(Shared.length_apply (Ender.plain hn)).trans hal.chans, hal.hand⟩

end Sys

end Kutsu
