import Kutsu.Model.Task
import Kutsu.Proofs.Redial

/-! A task and the time its call takes. The TTL leaves 30 s over the longest talk. What a call takes
off its talk, in the queue and between busy dials above all, has to fit in these. -/

namespace Kutsu

open Runs

def Phase.deadline? : Phase → Option ℕ
  | .live v => some v.deadline
  | _ => none

/-- The places of a call that has not been talked on, from the queue on. -/
def Stage.early : Stage → Bool
  | .talking _ | .finalizing _ => false
  | _ => true

def Place.early : Place → Bool
  | .pending | .hand | .ender => true
  | .attempt st => st.early
  | _ => false

theorem Stage.Step.of_talking {cfg : ServerConfig} {sh : Shared} {tok : Token} {a : Attempt} {input : RunInput}
    {p q : Stage} {eff : Effect} (h : Stage.Step cfg sh tok a input p q eff) (hq : q = .talking false) :
    p = .answered ∨ ∃ c, p = .talking c := by
  subst hq
  cases h with
  | start h | preflight h | reportWake h | bump d h => rcases h with h | h <;> cases h
  | unreported hr h => rcases h with h | h <;> cases h
  | ringing h => rcases h with h | h | h <;> cases h
  | answered => exact Or.inl rfl
  | talking => exact Or.inr ⟨_, rfl⟩

namespace LoopVars

variable {cfg : ServerConfig} {id : CallId} {v v' : LoopVars} {now : ℕ}

theorem gates_deadline (q : CallQuality) (d : DownlinkQuality) : (v.gates cfg q d).2.deadline = v.deadline := by
  unfold gates
  dsimp only
  split_ifs
  · rfl
  all_goals split <;> rfl

theorem react_deadline {i : LoopInput} (h : (v.react cfg id now i).next = .continue v') : v'.deadline = v.deadline := by
  cases i with
  | event ev =>
    cases ev
    all_goals cases h
    all_goals rfl
  | eventsClosed =>
    cases h
    rfl
  | sip r =>
    simp only [react] at h
    unfold onSip at h
    split at h
    · cases h
      rfl
    all_goals
      split_ifs at h
      all_goals cases h
      all_goals rfl
  | qtick q u d =>
    have hgates : (v.gates cfg (mergeQuality q u d) d).2.deadline = v.deadline := gates_deadline _ _
    simp only [react, onTick] at h
    split at h
    · cases h
    · rename_i w heq
      rw [heq] at hgates
      dsimp only at h
      unfold watchdog at h
      split_ifs at h
      · dsimp only at h
        split at h
        all_goals cases h
        all_goals exact hgates
      · cases h
        exact hgates
  | _ => cases h

end LoopVars

namespace Attempt

variable {cfg : ServerConfig} {sh : Shared} {tok : Token} {a : Attempt} {input : RunInput} {ph : Phase}
  {eff : Effect}

theorem deadline_next {d : ℕ} (h : a.next cfg sh tok input = some (ph, eff)) (hd : ph.deadline? = some d) :
    a.phase.deadline? = some d ∨ (a.phase.stage = .answered ∧ d = sh.clock + cfg.maxCallSecs * 1000) := by
  have hpanic : input ≠ .panic := by
    rintro rfl
    rw [(panic_next h).1] at hd
    cases hd
  have hstep := next_step h
  cases hph : a.phase with
  | answered warm =>
    obtain rfl := go_of_next h (by rw [hph]; rfl) hpanic
    unfold next at h
    rw [hph] at h
    obtain ⟨rfl, -⟩ := Prod.mk.inj (Option.some.inj h)
    cases warm with
    | ok _ => exact Or.inr ⟨rfl, (Option.some.inj hd).symm⟩
    | error e => cases hd
  | live v =>
    unfold next at h
    rw [hph] at h
    cases input with
    | loop i =>
      dsimp only at h
      split_ifs at h
      obtain ⟨rfl, -⟩ := Prod.mk.inj (Option.some.inj h)
      cases hn : (v.react cfg a.id sh.clock i).next with
      | «continue» v' =>
        rw [hn] at hd
        left
        rw [← hd]
        exact congrArg some (LoopVars.react_deadline hn).symm
      | «break» v' endState =>
        rw [hn] at hd
        unfold Phase.afterLoop Phase.teardown at hd
        dsimp only at hd
        split_ifs at hd <;> cases hd
    | panic => exact absurd rfl hpanic
    | _ => cases h
  | draining t cap =>
    unfold next at h
    rw [hph] at h
    cases input with
    | drain active =>
      obtain ⟨rfl, -⟩ := Prod.mk.inj (Option.some.inj h)
      split_ifs at hd <;> cases hd
    | panic => exact absurd rfl hpanic
    | _ => cases h
  | geminiFailed | joining | quality | totals | transcribe | resolve =>
    unfold next at h
    rw [hph] at h
    cases input with
    | go | joined | snapshot =>
      cases h
      all_goals cases hd
    | panic => exact absurd rfl hpanic
    | _ => cases h
  | _ =>
    have hq : ph.stage = .talking false := by
      cases ph with
      | live => rfl
      | _ => cases hd
    rcases hstep.of_talking hq with hp | ⟨c, hp⟩
    all_goals
      rw [hph] at hp
      cases hp

end Attempt

theorem Life.early {act : Act} {v w : Place} {x y : Option CallRecord} (h : Life act v x w y) (hw : w.early = true)
    (hv : v.unpushed = false) : v.early = true := by
  cases h with
  | stay => exact hw
  | @quiet p q x hfits =>
    -- a stage of the talk goes with a record in progress, and so does what it leads to quietly
    cases p with
    | talking c | finalizing c =>
      have hq := hfits .inProgress (by simp [Stage.fits])
      cases q with
      | talking | finalizing => cases hw
      | _ => simp [Stage.fits] at hq
    | _ => rfl
  | setState hcase =>
    rcases hcase with ⟨rfl, -⟩ | ⟨rfl, -⟩ | ⟨rfl, rfl, -⟩
    · rfl
    · rfl
    · rfl
  | insert | count | push | mint => cases hv
  | amend => cases hw
  | finalize | abandon => cases hw
  | _ => rfl

theorem Shared.clock_apply (sh : Shared) (eff : Effect) : (sh.apply eff).clock = sh.clock := by
  cases eff with
  | register | dropGuard | send => exact (rewired_apply sh rfl).clock
  | _ => rfl

namespace Sys

variable {cfg : ServerConfig} {act : Act} {s s' : Sys} {tok : Token} {a : Attempt} {id : CallId} {v : Place}

theorem Step.clock (h : Step cfg s act s') : act = .tick s'.sh.clock ∨ s'.sh.clock = s.sh.clock := by
  cases h with
  | tick now => exact Or.inl rfl
  | dispatch h =>
    right
    cases h with
    | look | spawn => rfl
    | _ => exact Shared.clock_apply _ _
  | timer => exact Or.inr rfl
  | _ => exact Or.inr (Shared.clock_apply _ _)

theorem unended_of_at (hst : s.Standing) (h : s.At id v) (hv : v.unpushed = false) (hne : v ≠ .settled) :
    s.unended id = true := by
  have hfits := hst id v h hne
  have hof : ∀ cs, (s.sh.store.get id).map (·.state) = some cs → cs ≠ .ended → s.unended id = true := by
    intro cs hcs hcs'
    obtain ⟨r, hr, rfl⟩ := Option.map_eq_some_iff.mp hcs
    rw [unended, hr, Option.any_some]
    exact decide_eq_true hcs'
  cases v with
  | unminted | placing => cases hv
  | settled => exact absurd rfl hne
  | attempt st =>
    obtain ⟨cs, hcs, hfit⟩ := hfits
    exact hof cs hcs (Stage.not_ended_of_fits hfit)
  | _ => exact hof .queued hfits (by decide)

theorem unended_back (hs : s.Sound) (hst : s.Standing) (h : Step cfg s act s') (hv : s.At id v)
    (hun : v.unpushed = false) (hu : s'.unended id = true) : s.unended id = true := by
  by_cases hne : v = .settled
  · subst hne
    obtain ⟨w, hw⟩ := exists_at (sound_step hs h).custody id
    cases life_step hs.custody hs.aligned h hv hw with
    | stay hkeep =>
      rcases hkeep with heq | hev
      · rw [unended, heq] at hu
        exact hu
      · rw [unended, hev.2] at hu
        cases hu
    | finalize hv => rcases hv with hv | ⟨c, hv⟩ <;> cases hv
  · exact unended_of_at hst hv hun hne

theorem exists_live (h : s.talking id = true) : ∃ (tok : Token) (a : Attempt) (d : ℕ), s.attempts[tok]? = some a ∧
    a.id = id ∧ a.phase.deadline? = some d := by
  obtain ⟨a, ha, hp⟩ := List.any_eq_true.mp h
  obtain ⟨hid, hlive⟩ := of_decide_eq_true hp
  obtain ⟨tok, htok⟩ := List.getElem?_of_mem ha
  cases hph : a.phase with
  | live v => exact ⟨tok, a, v.deadline, htok, hid, by rw [hph]; rfl⟩
  | _ =>
    rw [hph] at hlive
    cases hlive

theorem stage_of_deadline {d : ℕ} (hd : a.phase.deadline? = some d) : a.phase.stage = .talking false := by
  generalize a.phase = ph at hd
  cases ph with
  | live => rfl
  | _ => cases hd

theorem owns_of_deadline {d : ℕ} (hd : a.phase.deadline? = some d) : a.owns a.id = true := by
  simp [Attempt.owns, stage_of_deadline hd, Stage.owns]

theorem at_of_deadline {d : ℕ} (ha : s.attempts[tok]? = some a) (hd : a.phase.deadline? = some d) :
    s.At a.id (.attempt (.talking false)) := by
  rw [← stage_of_deadline hd]
  exact .attempt ha (owns_of_deadline hd)

theorem not_talking_of_early (hc : s.Custody) (hv : s.At id v) (he : v.early = true) : s.talking id = false := by
  rw [Bool.eq_false_iff]
  intro ht
  obtain ⟨tok, a, d, ha, rfl, hd⟩ := exists_live ht
  obtain rfl := at_unique hc hv (at_of_deadline ha hd)
  cases he

theorem exists_answer (ha : s.attempts[tok]? = some a) (hph : a.phase = .ringing (.ok ())) (codec : NegotiatedCodec) :
    ∃ s₁ s₂, s.step cfg (.run tok (.ring (.answered codec))) = some s₁ ∧ s₁.step cfg (.run tok .go) = some s₂ ∧
      s₁.sh.clock = s.sh.clock ∧ s₂.sh.clock = s₁.sh.clock ∧
      s₂.attempts[tok]? = some { a with phase := .live (LoopVars.init cfg s.sh.clock s.sh.clock) } := by
  have hlen : tok < s.attempts.length := (List.getElem?_eq_some_iff.mp ha).1
  have hanswer : a.next cfg s.sh tok (.ring (.answered codec)) = some (.answered (.ok ()), .idle) := by
    unfold Attempt.next
    rw [hph]
  have h₁ : s.step cfg (.run tok (.ring (.answered codec))) =
      some { s with attempts := s.attempts.set tok { a with phase := .answered (.ok ()) } } := by
    simp only [step, ha, hanswer, Option.bind_eq_bind, Option.bind_some]
    rfl
  have hgo : ({ a with phase := .answered (.ok ()) } : Attempt).next cfg s.sh tok .go =
      some (.live (LoopVars.init cfg s.sh.clock s.sh.clock), .store (.setState a.id .inProgress)) := rfl
  have h₂ : step cfg { s with attempts := s.attempts.set tok { a with phase := .answered (.ok ()) } } (.run tok .go) =
      some { s with
        sh := s.sh.apply (.store (.setState a.id .inProgress))
        attempts := (s.attempts.set tok { a with phase := .answered (.ok ()) }).set tok
          { a with phase := .live (LoopVars.init cfg s.sh.clock s.sh.clock) } } := by
    simp only [step, List.getElem?_set_self hlen, hgo, Option.bind_eq_bind, Option.bind_some]
    rfl
  exact ⟨_, _, h₁, h₂, rfl, rfl, by simp [hlen]⟩

structure Timed (cfg : ServerConfig) (s : Sys) : Prop where
  sound : s.Sound
  standing : s.Standing
  indexed : s.Indexed
  deadlines : ∀ (tok : Token) (a : Attempt) (d : ℕ), s.attempts[tok]? = some a → a.phase.deadline? = some d →
    d ≤ s.sh.clock + cfg.maxCallSecs * 1000

theorem timed_init (clock : ℕ) : Timed cfg (init cfg clock) :=
  ⟨sound_init clock, standing_init clock, rfl, fun _ _ _ h => by cases h⟩

theorem Step.deadline (hs : s.Sound) (h : Step cfg s act s') {a' : Attempt} {d : ℕ}
    (ha' : s'.attempts[tok]? = some a') (hd : a'.phase.deadline? = some d) :
    ∃ a, s.attempts[tok]? = some a ∧ a.id = a'.id ∧ (a.phase.deadline? = some d ∨
      (a.phase.stage = .answered ∧ d = s.sh.clock + cfg.maxCallSecs * 1000)) := by
  rcases h.back hs.aligned ha' with ⟨a, ha, hsame, hmoved⟩ | hmade
  · refine ⟨a, ha, (congrArg PendingEntry.callId hsame.entry).symm, ?_⟩
    cases hmoved with
    | still heq => exact Or.inl (heq ▸ hd)
    | run hact hstep hn hsh => exact Attempt.deadline_next hn hd
    | handed hact hh =>
      rcases hh.target with hst | hst | hst
      all_goals
        generalize a'.phase = ph at hst hd
        cases ph with
        | live => cases hst
        | _ => cases hd
  · rw [hmade.phase] at hd
    cases hd

theorem timed_step (ht : Timed cfg s) (h : Step cfg s act s') (hle : s.sh.clock ≤ s'.sh.clock) : Timed cfg s' where
  sound := sound_step ht.sound h
  standing := standing_step ht.standing ht.sound h
  indexed := indexed_step ht.indexed h
  deadlines tok a' d ha' hd := by
    obtain ⟨a, ha, -, hold | ⟨-, rfl⟩⟩ := h.deadline ht.sound ha' hd
    · have := ht.deadlines tok a d ha hold
      omega
    · omega

end Sys

namespace CallTask

variable {cfg : ServerConfig} {act : Act} {s s' : Sys} {t : CallTask}

@[simp] theorem callId_pass (t : CallTask) : (t.pass s s').callId = t.callId := by
  unfold pass
  split_ifs <;> rfl

@[simp] theorem createdMs_pass (t : CallTask) : (t.pass s s').createdMs = t.createdMs := by
  unfold pass
  split_ifs <;> rfl

@[simp] theorem ttlMs_pass (t : CallTask) : (t.pass s s').ttlMs = t.ttlMs := by
  unfold pass
  split_ifs <;> rfl

theorem offMs_pass (hu : s.unended t.callId = true) (ht : s.talking t.callId = false) :
    (t.pass s s').offMs = t.offMs + (s'.sh.clock - s.sh.clock) := by
  unfold pass
  rw [hu, ht]
  rfl

theorem le_offMs_pass (t : CallTask) : t.offMs ≤ (t.pass s s').offMs := by
  unfold pass
  split_ifs
  · exact Nat.le_add_right _ _
  · exact le_rfl

/-- Until it is talked on all of a call's time is off; from then on it is at most the longest talk
ahead of that. -/
structure Accounted (cfg : ServerConfig) (s : Sys) (t : CallTask) : Prop where
  started : ∀ v, s.At t.callId v → v.unpushed = false
  early : ∀ v, s.At t.callId v → v.early = true → s.sh.clock = t.createdMs + t.offMs
  talk : ∀ (tok : Token) (a : Attempt) (d : ℕ), s.attempts[tok]? = some a → a.id = t.callId →
    a.phase.deadline? = some d → d ≤ t.createdMs + t.offMs + cfg.maxCallSecs * 1000
  bound : s.unended t.callId = true → s.sh.clock ≤ t.createdMs + t.offMs + cfg.maxCallSecs * 1000

/-- A talk does not go on past its deadline. -/
def InTalk (s : Sys) (id : CallId) (now : ℕ) : Prop :=
  ∀ a ∈ s.attempts, a.id = id → ∀ d ∈ a.phase.deadline?, now ≤ d

theorem accounted_step (htimed : s.Timed cfg) (ha : t.Accounted cfg s) (h : Sys.Step cfg s act s')
    (hle : s.sh.clock ≤ s'.sh.clock) (htalk : s'.sh.clock = s.sh.clock ∨ InTalk s t.callId s'.sh.clock) :
    (t.pass s s').Accounted cfg s' := by
  have hs := htimed.sound
  have hearly : ∀ v w, s.At t.callId v → s'.At t.callId w → w.early = true → v.early = true := fun v w hv hw he =>
    (Sys.life_step hs.custody hs.aligned h hv hw).early he (ha.started v hv)
  have hoff : t.offMs ≤ (t.pass s s').offMs := le_offMs_pass t
  obtain ⟨v, hv⟩ := Sys.exists_at hs.custody t.callId
  have hun := ha.started v hv
  refine ⟨?_, ?_, ?_, ?_⟩
  · intro w hw
    rw [callId_pass] at hw
    rcases (Sys.life_step hs.custody hs.aligned h hv hw).unpushed with heq | rfl
    · rw [← heq, hun]
    · rfl
  · intro w hw he
    rw [callId_pass] at hw
    have hev := hearly v w hv hw he
    have hne : v ≠ .settled := by
      rintro rfl
      cases hev
    have heq := ha.early v hv hev
    rw [createdMs_pass, offMs_pass (Sys.unended_of_at htimed.standing hv hun hne)
      (Sys.not_talking_of_early hs.custody hv hev)]
    omega
  · intro tok a' d ha' hid hd
    rw [callId_pass] at hid
    rw [createdMs_pass]
    obtain ⟨a, hatt, hsame, hold | ⟨hst, rfl⟩⟩ := h.deadline hs ha' hd
    · have := ha.talk tok a d hatt (hsame.trans hid) hold
      omega
    · have hown : a.owns t.callId = true := by simp [Attempt.owns, hsame, hid, hst, Stage.owns]
      have heq := ha.early _ (.attempt hatt hown) (by rw [hst]; rfl)
      omega
  · intro hu
    rw [callId_pass] at hu
    rw [createdMs_pass]
    have hu' := Sys.unended_back hs htimed.standing h hv hun hu
    have hbound := ha.bound hu'
    cases ht : s.talking t.callId with
    | true =>
      obtain ⟨tok, a, d, hatt, hid, hd⟩ := Sys.exists_live ht
      have hdead := ha.talk tok a d hatt hid hd
      rcases htalk with heq | htalk
      · omega
      · have hnow := htalk a (List.mem_of_getElem? hatt) hid d hd
        omega
    | false =>
      rw [offMs_pass hu' ht]
      omega

end CallTask

namespace Mcp

variable {cfg : ServerConfig} {clock : ℕ} {w w' : Mcp} {act : McpAct} {tr : List McpAct} {id : CallId} {t : CallTask}

/-- The call's talk lasts at most `max_call_secs`: time does not pass its deadline. -/
def Timely (id : CallId) (w : Mcp) : McpAct → Prop
  | .engine (.tick now) => CallTask.InTalk w.sys id now
  | _ => True

/-- What the call takes off its talk stays within 30 s. -/
def Brief (id : CallId) (w : Mcp) : McpAct → Prop
  | .engine (.tick now) => ∀ t ∈ w.tasks, t.callId = id → w.sys.unended id = true → w.sys.talking id = false →
      t.offMs + (now - w.sys.sh.clock) ≤ 30000
  | _ => True

inductive Step (cfg : ServerConfig) (w w' : Mcp) (act : McpAct) : Prop where
  | moves {a : Act} (h : Sys.Step cfg w.sys a w'.sys) (hle : w.sys.sh.clock ≤ w'.sys.sh.clock)
      (ht : w'.tasks = w.tasks.map (.pass w.sys w'.sys)) (hact : ∀ now, a = .tick now → act = .engine (.tick now))
  | stays (hs : w'.sys = w.sys) (ht : w'.tasks = w.tasks)
  | makes {p : Placing} (hp : p ∈ w.sys.placing) (hpc : p.pc = .done) (hs : w'.sys = w.sys)
      (ht : w'.tasks = w.tasks ++ [⟨p.entry.callId, w.sys.sh.clock, taskTtlMs cfg, 0⟩])

theorem step_cases (h : w.step cfg act = some w') : Step cfg w w' act := by
  cases act with
  | engine a =>
    obtain ⟨sys, hsys, h⟩ := Option.bind_eq_some_iff.mp h
    split_ifs at h with hle
    obtain rfl := Option.some.inj h
    exact .moves (Sys.step_cases hsys) hle rfl fun now ha => ha ▸ rfl
  | placeCall args supports =>
    simp only [step] at h
    split_ifs at h
    · obtain rfl := Option.some.inj h
      exact .stays rfl rfl
    · obtain ⟨sys, hsys, h⟩ := Option.bind_eq_some_iff.mp h
      obtain rfl := Option.some.inj h
      have hstep := Sys.step_cases hsys
      have hclock : sys.sh.clock = w.sys.sh.clock := by
        rcases hstep.clock with hact | heq
        · cases hact
        · exact heq
      refine .moves hstep hclock.ge ?_ fun _ ha => by cases ha
      have hpass : ∀ t : CallTask, t.pass w.sys sys = t := by
        intro t
        unfold CallTask.pass
        split_ifs
        · rw [hclock, Nat.sub_self]
          rfl
        · rfl
      exact (List.map_id'' hpass _).symm
  | respond j =>
    obtain ⟨r, hr, h⟩ := Option.bind_eq_some_iff.mp h
    obtain ⟨p, hp, h⟩ := Option.bind_eq_some_iff.mp h
    split_ifs at h with hpc
    · obtain rfl := Option.some.inj h
      exact .stays rfl rfl
    · obtain rfl := Option.some.inj h
      exact .makes (List.mem_of_getElem? hp) (not_not.mp hpc) rfl rfl

structure Watched (cfg : ServerConfig) (id : CallId) (w : Mcp) : Prop where
  timed : w.sys.Timed cfg
  ttl : ∀ t ∈ w.tasks, t.ttlMs = taskTtlMs cfg
  accounted : ∀ t ∈ w.tasks, t.callId = id → t.Accounted cfg w.sys

theorem watched_init (clock : ℕ) : (init cfg clock).Watched cfg id :=
  ⟨Sys.timed_init clock, fun _ h => (by cases h), fun _ h => (by cases h)⟩

theorem started_of_done (htimed : w.sys.Timed cfg) {p : Placing} (hp : p ∈ w.sys.placing) (hpc : p.pc = .done)
    {v : Place} (hv : w.sys.At p.entry.callId v) : v.unpushed = false := by
  cases hv with
  | unminted hm =>
    refine absurd ?_ hm
    have hmem : p.entry.callId ∈ (List.range w.sys.sh.seq).map callId := by
      rw [← show w.sys.placing.map (·.entry.callId) = _ from htimed.indexed]
      exact List.mem_map_of_mem hp
    obtain ⟨n, hn, heq⟩ := List.mem_map.mp hmem
    exact ⟨n, List.mem_range.mp hn, heq⟩
  | @placing i q hq ho =>
    obtain ⟨hid, hun⟩ := Bool.and_eq_true_iff.mp ho
    obtain rfl := htimed.indexed.entry_unique (List.mem_of_getElem? hq) hp (beq_iff_eq.mp hid)
    rw [hpc] at hun
    cases hun
  | _ => rfl

theorem watched_step (hw : w.Watched cfg id) (hok : Timely id w act) (h : Step cfg w w' act) :
    w'.Watched cfg id := by
  cases h with
  | @moves a hstep hle ht hact =>
    refine ⟨Sys.timed_step hw.timed hstep hle, ?_, ?_⟩
    all_goals
      intro t' ht'
      rw [ht] at ht'
      obtain ⟨t, hmem, rfl⟩ := List.mem_map.mp ht'
    · rw [CallTask.ttlMs_pass]
      exact hw.ttl t hmem
    · intro hid
      rw [CallTask.callId_pass] at hid
      refine CallTask.accounted_step hw.timed (hw.accounted t hmem hid) hstep hle ?_
      rcases hstep.clock with htick | heq
      · right
        rw [hact _ htick] at hok
        exact hid ▸ hok
      · exact Or.inl heq
  | stays hs ht =>
    refine ⟨hs ▸ hw.timed, ht ▸ hw.ttl, ?_⟩
    rw [hs, ht]
    exact hw.accounted
  | @makes p hp hpc hs ht =>
    refine ⟨hs ▸ hw.timed, ?_, ?_⟩
    all_goals
      intro t hmem
      rw [ht] at hmem
    · rcases List.mem_append.mp hmem with hold | hnew
      · exact hw.ttl t hold
      · rw [List.mem_singleton.mp hnew]
    · intro hid
      rw [hs]
      rcases List.mem_append.mp hmem with hold | hnew
      · exact hw.accounted t hold hid
      · obtain rfl := List.mem_singleton.mp hnew
        refine ⟨fun v hv => started_of_done hw.timed hp hpc hv, fun _ _ _ => rfl, ?_, fun _ => ?_⟩
        · intro tok a d ha _ hd
          exact hw.timed.deadlines tok a d ha hd
        · exact Nat.le_add_right _ _

/-- The time off of a call is brief as long as no step makes it longer than that. -/
theorem brief_step (hb : ∀ t ∈ w.tasks, t.callId = id → t.offMs ≤ 30000) (hok : Brief id w act)
    (h : Step cfg w w' act) : ∀ t ∈ w'.tasks, t.callId = id → t.offMs ≤ 30000 := by
  intro t' ht' hid
  cases h with
  | @moves a hstep hle ht hact =>
    rw [ht] at ht'
    obtain ⟨t, hmem, rfl⟩ := List.mem_map.mp ht'
    rw [CallTask.callId_pass] at hid
    have hold := hb t hmem hid
    unfold CallTask.pass
    split_ifs with hoff
    · obtain ⟨hu, htalk⟩ := Bool.and_eq_true_iff.mp hoff
      rcases hstep.clock with htick | heq
      · rw [hact _ htick] at hok
        exact hok t hmem hid (hid ▸ hu) (by rw [← hid]; exact Bool.not_eq_true' _ ▸ htalk)
      · dsimp only
        omega
    · exact hold
  | stays hs ht =>
    rw [ht] at ht'
    exact hb t' ht' hid
  | makes hp hpc hs ht =>
    rw [ht] at ht'
    rcases List.mem_append.mp ht' with hold | hnew
    · exact hb t' hold hid
    · rw [List.mem_singleton.mp hnew]
      exact Nat.zero_le _

/-- The call is answered and talked on until its deadline. -/
def talkOut (cfg : ServerConfig) (tok : Token) (codec : NegotiatedCodec) (now : ℕ) : List McpAct :=
  [.engine (.run tok (.ring (.answered codec))), .engine (.run tok .go), .engine (.tick (now + cfg.maxCallSecs * 1000))]

theorem run_engine {a : Act} {sys : Sys} (hrun : Run (step cfg) (Timely id) (init cfg clock) tr w)
    (h : w.sys.step cfg a = some sys) (hle : w.sys.sh.clock ≤ sys.sh.clock) (hok : Timely id w (.engine a)) :
    ∃ w', Run (step cfg) (Timely id) (init cfg clock) (tr ++ [.engine a]) w' ∧ w'.sys = sys ∧
      ∀ t ∈ w.tasks, t.pass w.sys sys ∈ w'.tasks := by
  refine ⟨{ w with sys, tasks := w.tasks.map (.pass w.sys sys) }, hrun.snoc hok ?_, rfl, ?_⟩
  · rw [step, h, Option.bind_eq_bind, Option.bind_some, if_pos hle]
  · exact fun t ht => List.mem_map_of_mem ht

theorem watched_of_run (h : Run (step cfg) (Timely id) (init cfg clock) tr w) : w.Watched cfg id :=
  h.invariant (watched_init clock) fun _ _ _ hw hok hs => watched_step hw hok (step_cases hs)

/-- With more than 30 s off its talk, a call that rings has to be talked out only for its task to be swept. -/
theorem swept_of_talkOut {a : Attempt} {tok : Token} (hfit : cfg.maxCallSecs * 1000 + 30000 < UInt64.size)
    (hrun : Run (step cfg) (Timely id) (init cfg clock) tr w) (codec : NegotiatedCodec) (ht : t ∈ w.tasks)
    (hid : t.callId = id) (ha : w.sys.attempts[tok]? = some a) (haid : a.id = id) (hph : a.phase = .ringing (.ok ()))
    (hoff : 30000 < t.offMs) :
    ∃ w', Run (step cfg) (Timely id) (init cfg clock) (tr ++ talkOut cfg tok codec w.sys.sh.clock) w' ∧
      ∃ t' ∈ w'.tasks, t'.callId = id ∧ w'.Swept t' := by
  have hw := watched_of_run hrun
  have hringing : w.sys.At id (.attempt .ringing) := by
    have hown : a.owns id = true := by simp [Attempt.owns, haid, hph, Phase.stage, Stage.owns]
    have hat := Sys.At.attempt ha hown
    rwa [hph] at hat
  have hclock := (hw.accounted t ht hid).early _ (hid ▸ hringing) rfl
  obtain ⟨s₁, s₂, h₁, h₂, hc₁, hc₂, ha₂⟩ := Sys.exists_answer ha hph codec
  obtain ⟨w₁, hrun₁, rfl, ht₁⟩ := run_engine hrun h₁ hc₁.ge trivial
  obtain ⟨w₂, hrun₂, rfl, ht₂⟩ := run_engine hrun₁ h₂ hc₂.ge trivial
  have hw₂ := watched_of_run hrun₂
  have htalk : CallTask.InTalk w₂.sys id (w.sys.sh.clock + cfg.maxCallSecs * 1000) := by
    intro b hb hbid d hd
    obtain ⟨tok', hb⟩ := List.getElem?_of_mem hb
    have hown : b.owns id = true := hbid ▸ Sys.owns_of_deadline hd
    obtain rfl := Sys.owner_unique hw₂.timed.sound.custody hb ha₂ hown (haid ▸ Sys.owns_of_deadline rfl)
    obtain rfl := Option.some.inj (hb.symm.trans ha₂)
    exact (Option.some.inj hd).le
  have h₃ : w₂.sys.step cfg (.tick (w.sys.sh.clock + cfg.maxCallSecs * 1000)) = some _ := rfl
  have hle : w₂.sys.sh.clock ≤ w.sys.sh.clock + cfg.maxCallSecs * 1000 := by omega
  obtain ⟨w₃, hrun₃, hw₃, ht₃⟩ := run_engine hrun₂ h₃ hle htalk
  have ha₃ := ha₂
  rw [show w₂.sys.attempts = w₃.sys.attempts by rw [hw₃]] at ha₃
  have hunended : w₃.sys.unended id = true :=
    Sys.unended_of_at (watched_of_run hrun₃).timed.standing (haid ▸ Sys.at_of_deadline ha₃ rfl) rfl (by simp)
  refine ⟨w₃, by simpa [talkOut] using hrun₃, _, ht₃ _ (ht₂ _ (ht₁ _ ht)), ?_, ?_, ?_⟩
  · simpa using hid
  · simpa [hid] using hunended
  · have hdeadline : w₃.sys.sh.clock = w.sys.sh.clock + cfg.maxCallSecs * 1000 := congrArg (·.sh.clock) hw₃
    simp only [CallTask.createdMs_pass, CallTask.ttlMs_pass]
    rw [hdeadline, hclock, hw.ttl t ht, taskTtlMs, Nat.mod_eq_of_lt hfit, Nat.add_assoc,
      Nat.add_comm t.offMs]
    exact Nat.add_lt_add_left (Nat.add_lt_add_left hoff _) _

def Within (id : CallId) (w : Mcp) (act : McpAct) : Prop := Timely id w act ∧ Brief id w act

/-- A task is not swept while its call goes on where the talk ends in time and what the call takes off
its talk, in the queue, ringing and between busy dials, stays within 30 s. A call that rings with more than that
behind it loses its task to a talk that ends in time. -/
theorem task_sweep (hfit : cfg.maxCallSecs * 1000 + 30000 < UInt64.size) :
    (∀ tr w, Run (step cfg) (Within id) (init cfg clock) tr w → ∀ t ∈ w.tasks, t.callId = id → ¬ w.Swept t) ∧
    ∀ tr w, Run (step cfg) (Timely id) (init cfg clock) tr w → ∀ t ∈ w.tasks, t.callId = id → 30000 < t.offMs →
      ∀ (tok : Token) (a : Attempt), w.sys.attempts[tok]? = some a → a.id = id → a.phase = .ringing (.ok ()) →
        ∀ codec, ∃ w', Run (step cfg) (Timely id) (init cfg clock) (tr ++ talkOut cfg tok codec w.sys.sh.clock) w' ∧
          ∃ t' ∈ w'.tasks, t'.callId = id ∧ w'.Swept t' := by
  refine ⟨fun tr w h t ht hid hswept => ?_, ?_⟩
  · have hw := watched_of_run (h.weaken fun _ _ hok => hok.1)
    have hbrief : ∀ t ∈ w.tasks, t.callId = id → t.offMs ≤ 30000 :=
      h.invariant (I := fun w => ∀ t ∈ w.tasks, t.callId = id → t.offMs ≤ 30000) (fun _ ht => by cases ht)
        fun _ _ _ hb hok hs => brief_step hb hok.2 (step_cases hs)
    obtain ⟨hunended, hpast⟩ := hswept
    have hbound := (hw.accounted t ht hid).bound hunended
    have hoff := hbrief t ht hid
    rw [hw.ttl t ht, taskTtlMs, Nat.mod_eq_of_lt hfit] at hpast
    omega
  · intro tr w hrun t ht hid hoff tok a ha haid hph codec
    exact swept_of_talkOut hfit hrun codec ht hid ha haid hph hoff

instance (w : Mcp) (act : McpAct) : Decidable (Within id w act) :=
  match act with
  | .engine a =>
    match a with
    | .tick now => inferInstanceAs (Decidable ((∀ a ∈ w.sys.attempts, a.id = id → ∀ d ∈ a.phase.deadline?, now ≤ d) ∧
        ∀ t ∈ w.tasks, t.callId = id → w.sys.unended id = true → w.sys.talking id = false →
          t.offMs + (now - w.sys.sh.clock) ≤ 30000))
    | .place .. | .placing _ | .dispatch | .timer | .run .. | .endCall _ | .ender _ => .isTrue ⟨trivial, trivial⟩
  | .placeCall .. | .respond _ => .isTrue ⟨trivial, trivial⟩

instance (w : Mcp) (act : McpAct) : Decidable (Timely id w act) :=
  match act with
  | .engine a =>
    match a with
    | .tick now => inferInstanceAs (Decidable (∀ a ∈ w.sys.attempts, a.id = id → ∀ d ∈ a.phase.deadline?, now ≤ d))
    | .place .. | .placing _ | .dispatch | .timer | .run .. | .endCall _ | .ender _ => .isTrue trivial
  | .placeCall .. | .respond _ => .isTrue trivial

/-- `place_call` makes a task, and the call is dialled at once. -/
def taskRings : List McpAct :=
  .placeCall { toNumber := "+358401234567", goalSchema := .obj [] } true ::
    List.replicate 4 (.engine (.placing 0)) ++ .respond 0 :: (List.replicate 9 Act.dispatch ++
      [Act.run 0 .go, .run 0 .go, .run 0 (.invited (.ok ())), .run 0 (.warmed (.ok ()))]).map .engine

/-- It rings for 30 s, and is talked on for the 600 s it may last. -/
def talkedInTime : List McpAct := taskRings ++ .engine (.tick 30000) :: talkOut Sys.noPreflight 0 ⟨8, .alaw, 20⟩ 30000

theorem task_sweep_talkedInTime :
    ∃ w t, exec (guarded (step Sys.noPreflight) (Within (callId 0))) (init Sys.noPreflight 0) talkedInTime = some w ∧
      w.tasks[0]? = some t ∧ t.callId = callId 0 ∧ w.sys.sh.clock = t.createdMs + t.ttlMs ∧ ¬ w.Swept t := by
  obtain ⟨w, t, hw, ht, hid, hclock⟩ : ∃ w t, exec (guarded (step Sys.noPreflight) (Within (callId 0)))
        (init Sys.noPreflight 0) talkedInTime = some w ∧ w.tasks[0]? = some t ∧ t.callId = callId 0 ∧
      w.sys.sh.clock = t.createdMs + t.ttlMs := ⟨_, _, rfl, rfl, rfl, rfl⟩
  exact ⟨w, t, hw, ht, hid, hclock, (task_sweep (by decide)).1 _ _ (run_of_guarded hw) t (List.mem_of_getElem? ht) hid⟩

/-- The first dial is busy, the second is answered 300 s later, and the talk goes on for 330 s of the 600 s
it may last. -/
def redialledTalk : List McpAct :=
  taskRings ++ (Sys.busyRing ++ [Act.run 0 .go, .tick 300000] ++ List.replicate 9 Act.dispatch ++
    [Act.run 1 .go, .run 1 .go, .run 1 (.invited (.ok ())), .run 1 (.warmed (.ok ())),
      .run 1 (.ring (.answered ⟨8, .alaw, 20⟩)), .run 1 .go, .tick 630001]).map .engine

theorem swept_mid_talk :
    ∃ w t, exec (guarded (step Sys.noPreflight) (Timely (callId 0))) (init Sys.noPreflight 0) redialledTalk = some w ∧
      w.tasks[0]? = some t ∧ t.callId = callId 0 ∧
      (w.sys.sh.store.get (callId 0)).map (·.state) = some .inProgress ∧ w.sys.talking (callId 0) = true ∧
      w.Swept t := by
  have hrun : (exec (guarded (step Sys.noPreflight) (Timely (callId 0))) (init Sys.noPreflight 0) redialledTalk).any
      (fun w => (w.sys.sh.store.get (callId 0)).map (·.state) = some .inProgress ∧ w.sys.talking (callId 0) = true ∧
        w.tasks[0]?.any fun t => t.callId = callId 0 ∧ w.sys.unended t.callId = true ∧
          t.createdMs + t.ttlMs < w.sys.sh.clock) = true := by
    decide +kernel
  obtain ⟨w, hw, hend⟩ := (Option.any_eq_true _ _).mp hrun
  obtain ⟨hstate, htalking, htask⟩ := of_decide_eq_true hend
  obtain ⟨t, ht, hswept⟩ := (Option.any_eq_true _ _).mp htask
  obtain ⟨hid, hswept⟩ := of_decide_eq_true hswept
  exact ⟨w, t, hw, ht, hid, hstate, htalking, hswept⟩

end Mcp

end Kutsu
