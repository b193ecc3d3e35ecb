import Kutsu.Proofs.Goodbye
import Kutsu.Proofs.Turns

/-! When the driver speaks up by itself. The flags of the loop are read back as what they say of
the inputs so far; the greeting and the resume cue are guarded by them. -/

namespace Kutsu

open Runs Talk

namespace DriverInput

def isGreet : DriverInput → Bool
  | .greetTimer _ => true
  | _ => false

@[simp] def answers : DriverInput → Bool
  | .answeredChanged answered => answered
  | _ => false

@[simp] def isActivity : DriverInput → Bool
  | .outputAudio _ => true
  | .transcript _ _ _ => true
  | .affect _ _ => true
  | .interrupted => true
  | .turnComplete => true
  | _ => false

@[simp] def reconnects : DriverInput → Bool
  | .sessionOpened isReconnect _ _ => isReconnect
  | _ => false

@[simp] def byUser : DriverInput → Bool
  | .transcript role _ _ => role = .user
  | _ => false

variable {V : Type} (observe : V → List Sample → Bool × V) (vad : V)

@[simp] def onset : DriverInput → Bool
  | .audio pcm _ => (observe vad pcm).1
  | _ => false

@[simp] def listen : DriverInput → V
  | .audio pcm _ => (observe vad pcm).2
  | _ => vad

variable {i : DriverInput}

theorem open_of_signal (h : (i.onset observe vad || i.byUser) = true) : i.endsTurn = false := by
  cases i with
  | turnComplete => cases h
  | _ => rfl

end DriverInput

section Traces

variable {V : Type} (observe : V → List Sample → Bool × V) (vad : V)

def heardVad (tr : List (DriverInput × ℕ)) : V := tr.foldl (fun v i => i.1.listen observe v) vad

/-- The VAD has found an onset of speech. -/
def Onset (tr : List (DriverInput × ℕ)) : Prop :=
  ∃ before i after, tr = before ++ i :: after ∧ i.1.onset observe (heardVad observe vad before) = true

/-- An onset or a transcript of the callee, and no turn has completed since. -/
def Pending (tr : List (DriverInput × ℕ)) : Prop :=
  ∃ before i after, tr = before ++ i :: after ∧
    (i.1.onset observe (heardVad observe vad before) || i.1.byUser) = true ∧ ∀ j ∈ after, j.1.endsTurn = false

variable {observe vad} {tr : List (DriverInput × ℕ)} (i : DriverInput × ℕ)

theorem heardVad_concat : heardVad observe vad (tr ++ [i]) = i.1.listen observe (heardVad observe vad tr) :=
  List.foldl_concat ..

theorem onset_concat : Onset observe vad (tr ++ [i]) ↔
    i.1.onset observe (heardVad observe vad tr) = true ∨ Onset observe vad tr :=
  Windows.exists_split_concat

theorem pending_concat : Pending observe vad (tr ++ [i]) ↔
    (i.1.onset observe (heardVad observe vad tr) || i.1.byUser) = true ∨
      Pending observe vad tr ∧ i.1.endsTurn = false := by
  rw [Pending, Windows.exists_split_concat]
  refine or_congr (and_iff_left fun j hj => absurd hj List.not_mem_nil) ?_
  constructor
  · rintro ⟨before, b, after, htr, hb, hquiet⟩
    rw [List.forall_mem_append, List.forall_mem_singleton] at hquiet
    exact ⟨⟨before, b, after, htr, hb, hquiet.1⟩, hquiet.2⟩
  · rintro ⟨⟨before, b, after, htr, hb, hquiet⟩, hi⟩
    refine ⟨before, b, after, htr, hb, ?_⟩
    rw [List.forall_mem_append, List.forall_mem_singleton]
    exact ⟨hquiet, hi⟩

end Traces

variable {V : Type} {cfg : ServerConfig} {observe : V → List Sample → Bool × V}

namespace Driver

/-- What an input does to the flags. -/
structure Flagged (observe : V → List Sample → Bool × V) (d : Driver V) (input : DriverInput) (d' : Driver V) :
    Prop where
  vad : d'.vad = input.listen observe d.vad
  armed : d'.greetArmed = (d.greetArmed || input.answers)
  activity : d'.hadActivity = (d.hadActivity || input.isActivity)
  callee : d'.calleeActive = (d.calleeActive || (input.onset observe d.vad || input.byUser))
  reconnect : d'.isReconnectSession = (d.isReconnectSession || input.reconnects)
  resume : d'.resumeNeeded =
    (!input.endsTurn && (d.resumeNeeded || (input.onset observe d.vad || input.byUser)))

theorem flagged_react (cfg : ServerConfig) (observe : V → List Sample → Bool × V) (d : Driver V)
    (now : ℕ) (input : DriverInput) :
    d.Flagged observe input (d.react cfg observe now input).2.driver := by
  cases input with
  | answeredChanged answered => cases answered <;> constructor <;> simp [react]
  | greetTimer sendOk | audio pcm sendOk => cases sendOk <;> constructor <;> simp [react]
  | endingTimer => cases hend : d.ending <;> constructor <;> simp [react, hend]
  | sessionOpened isReconnect resumed sendOk =>
    cases isReconnect with
    | false => constructor <;> simp [react]
    | true =>
      cases hlost : (!resumed && d.resumeNeeded) <;> cases sendOk <;> constructor <;>
        simp [react, onReconnect, hlost]
  | turnComplete => cases hend : d.ending <;> constructor <;> simp [react, onTurnComplete, hend]
  | toolCall name id args =>
    by_cases hname : name = "end_call"
    · cases hend : d.ending <;> constructor <;> simp [react, onToolCall, hname, hend]
    · constructor <;> simp [react, onToolCall, hname]
  | _ => constructor <;> simp [react]

theorem ungreeted_of_continue {d d' : Driver V} {now : ℕ} {input : DriverInput}
    (h : (d.react cfg observe now input).2 = .continue d') (hg : d'.greeted = false) :
    d.greeted = false ∧ input.isGreet = false ∧ (d.ending = none → input.endCallArgs = none) := by
  have keep : ∀ {e : Driver V}, DriverNext.continue e = .continue d' → e.greeted = d.greeted → d.greeted = false := by
    intro e he hsame
    obtain rfl := DriverNext.continue.inj he
    rw [← hsame, hg]
  have hit : ∀ {e : Driver V}, DriverNext.continue e = .continue d' → e.greeted = true → False := by
    intro e he htrue
    obtain rfl := DriverNext.continue.inj he
    rw [htrue] at hg
    cases hg
  cases input with
  | answeredChanged answered => cases answered <;> exact ⟨keep h rfl, rfl, fun _ => rfl⟩
  | greetTimer sendOk =>
    cases sendOk
    · cases h
    · exact (hit h rfl).elim
  | audio pcm sendOk =>
    cases sendOk
    · cases h
    · exact ⟨keep h rfl, rfl, fun _ => rfl⟩
  | endingTimer =>
    cases hend : d.ending with
    | none =>
      rw [react, hend] at h
      exact ⟨keep h rfl, rfl, fun _ => rfl⟩
    | some goal => rw [react, hend] at h; cases h
  | sessionOpened isReconnect resumed sendOk =>
    cases isReconnect with
    | false => exact ⟨keep h rfl, rfl, fun _ => rfl⟩
    | true =>
      simp only [react, onReconnect, if_pos] at h
      split_ifs at h
      · exact (hit h rfl).elim
      · exact (hit h rfl).elim
  | turnComplete =>
    cases hend : d.ending with
    | none =>
      simp only [react, onTurnComplete, hend] at h
      exact ⟨keep h rfl, rfl, fun _ => rfl⟩
    | some goal => simp only [react, onTurnComplete, hend] at h; cases h
  | toolCall name id args =>
    by_cases hname : name = "end_call"
    · cases hend : d.ending with
      | none =>
        simp only [react, onToolCall, if_pos hname, hend, Option.isNone_none] at h
        exact (hit h rfl).elim
      | some goal =>
        simp only [react, onToolCall, if_pos hname, hend, Option.isNone_some] at h
        exact ⟨keep h rfl, rfl, fun hnone => by cases hnone⟩
    · simp only [react, onToolCall, if_neg hname] at h
      exact ⟨keep h rfl, rfl, fun _ => if_neg hname⟩
  | audioClosed | sessionClosed | hangup => cases h
  | answeredClosed | outputAudio | transcript | affect | interrupted | text | textClosed =>
    exact ⟨keep h rfl, rfl, fun _ => rfl⟩

end Driver

def DriverOut.cue? : DriverOut → Option String
  | .clientText cue => some cue
  | _ => none

def sentCues (outs : List DriverOut) : List String := outs.filterMap DriverOut.cue?

/-- The texts that an input makes the driver send; `lost` is whether an exchange is pending. -/
def cues (cfg : ServerConfig) (lost : Bool) : DriverInput → List String
  | .greetTimer _ => [cfg.prompts.greetCue]
  | .sessionOpened isReconnect resumed _ => if isReconnect && (!resumed && lost) then [cfg.prompts.resumeCue] else []
  | .text cue => [cue]
  | _ => []

namespace Driver

theorem react_cues (d : Driver V) (now : ℕ) (input : DriverInput) :
    sentCues (d.react cfg observe now input).1 = cues cfg d.resumeNeeded input := by
  cases input with
  | sessionOpened isReconnect resumed sendOk =>
    cases isReconnect with
    | false => rfl
    | true =>
      simp only [react, onReconnect, cues, if_pos, Bool.true_and]
      cases (!resumed && d.resumeNeeded) <;> rfl
  | endingTimer =>
    rw [react]
    cases d.ending <;> rfl
  | turnComplete =>
    simp only [react, onTurnComplete]
    cases d.ending <;> rfl
  | toolCall name id args =>
    simp only [react, onToolCall]
    split_ifs <;> rfl
  | _ => rfl

/-- The flags of a looping driver as facts about its inputs. -/
structure Flags (cfg : ServerConfig) (observe : V → List Sample → Bool × V) (vad : V) (answered : Bool)
    (tr : List (DriverInput × ℕ)) (d : Driver V) : Prop where
  heard : d.vad = heardVad observe vad tr
  armed : d.greetArmed = true → answered = true ∨ ∃ i ∈ tr, i.1.answers = true
  quiet : d.hadActivity = false → ∀ i ∈ tr, i.1.isActivity = false
  unheard : d.calleeActive = false → ¬ Onset observe vad tr
  fresh : d.isReconnectSession = false → ∀ i ∈ tr, i.1.reconnects = false
  lost : d.resumeNeeded = true ↔ Pending observe vad tr
  ending : d.ending = submitted tr
  ungreeted : d.greeted = false → 0 < cfg.greetAfterSilenceMs ∧ submitted tr = none ∧ ∀ i ∈ tr, i.1.isGreet = false

variable {vad : V} {answered : Bool} {tr : List (DriverInput × ℕ)} {d d' : Driver V} {input : DriverInput × ℕ}

theorem flags_init (t₀ : ℕ) : (init cfg vad answered t₀).Flags cfg observe vad answered [] where
  heard := rfl
  armed := Or.inl
  quiet := fun _ i hi => absurd hi List.not_mem_nil
  unheard := fun _ ⟨before, i, after, h, _⟩ => absurd h (by simp)
  fresh := fun _ i hi => absurd hi List.not_mem_nil
  lost := ⟨fun h => (Bool.noConfusion h), fun ⟨before, i, after, h, _⟩ => absurd h (by simp)⟩
  ending := rfl
  ungreeted := fun h => ⟨by simpa [init] using h, rfl, fun i hi => absurd hi List.not_mem_nil⟩

theorem flags_react (hf : d.Flags cfg observe vad answered tr)
    (h : (d.react cfg observe input.2 input.1).2 = .continue d') :
    d'.Flags cfg observe vad answered (tr ++ [input]) := by
  have hstep := flagged_react cfg observe d input.2 input.1
  rw [h, DriverNext.driver] at hstep
  have hall : ∀ {p : DriverInput × ℕ → Bool} {a b : Bool}, b = (a || p input) → (a = false → ∀ i ∈ tr, p i = false) →
      b = false → ∀ i ∈ tr ++ [input], p i = false := by
    intro p a b hb hold hfalse
    rw [hb, Bool.or_eq_false_iff] at hfalse
    rw [List.forall_mem_append, List.forall_mem_singleton]
    exact ⟨hold hfalse.1, hfalse.2⟩
  refine ⟨?_, ?_, hall hstep.activity hf.quiet, ?_, hall hstep.reconnect hf.fresh, ?_, ?_, ?_⟩
  · rw [hstep.vad, hf.heard, heardVad_concat]
  · intro harmed
    rw [hstep.armed, Bool.or_eq_true] at harmed
    rcases harmed with hold | hnew
    · exact (hf.armed hold).imp_right fun ⟨i, hi, ha⟩ => ⟨i, List.mem_append_left _ hi, ha⟩
    · exact Or.inr ⟨input, by simp, hnew⟩
  · intro hcallee
    rw [hstep.callee, Bool.or_eq_false_iff, Bool.or_eq_false_iff, hf.heard] at hcallee
    rw [onset_concat, hcallee.2.1]
    exact not_or.mpr ⟨Bool.false_ne_true, hf.unheard hcallee.1⟩
  · rw [pending_concat, hstep.resume, ← hf.lost, ← hf.heard]
    have hsig := @DriverInput.open_of_signal V observe d.vad input.1
    cases hturn : input.1.endsTurn with
    | false => simp [or_comm]
    | true =>
      rw [hturn] at hsig
      simpa using hsig
  · rw [ending_of_continue h, hf.ending, submitted_append]
  · intro hg
    obtain ⟨hold, hgreet, hopen⟩ := ungreeted_of_continue h hg
    obtain ⟨hpos, hnone, hnever⟩ := hf.ungreeted hold
    refine ⟨hpos, ?_, ?_⟩
    · rw [submitted_append, hnone, Option.none_or]
      exact hopen (hf.ending.trans hnone)
    · rw [List.forall_mem_append, List.forall_mem_singleton]
      exact ⟨hnever, hgreet⟩

end Driver

namespace DriverRun

variable {vad : V} {answered : Bool} {t₀ : ℕ} {tr : List (DriverInput × ℕ)} {r r' : DriverRun V}

/-- When the greeting may be sent, by the inputs before it: the call is answered, neither side has
made itself heard, and nothing else has come between. -/
structure MayGreet (cfg : ServerConfig) (observe : V → List Sample → Bool × V) (vad : V) (answered : Bool)
    (before : List (DriverInput × ℕ)) : Prop where
  enabled : 0 < cfg.greetAfterSilenceMs
  answered : answered = true ∨ ∃ i ∈ before, i.1.answers = true
  quiet : ∀ i ∈ before, i.1.isActivity = false
  unheard : ¬ Onset observe vad before
  fresh : ∀ i ∈ before, i.1.reconnects = false
  ending : submitted before = none
  first : ∀ i ∈ before, i.1.isGreet = false

theorem mayGreet_of_flags {d : Driver V} {input : DriverInput × ℕ} (hf : d.Flags cfg observe vad answered tr)
    (hen : d.enabled input.2 input.1 = true) (hgreet : input.1.isGreet = true) :
    MayGreet cfg observe vad answered tr := by
  cases hinput : input.1 with
  | greetTimer sendOk =>
    rw [hinput] at hen
    simp only [Driver.enabled, Bool.and_eq_true, Bool.not_eq_true'] at hen
    obtain ⟨⟨⟨⟨⟨harmed, hungreeted⟩, hquiet⟩, hcallee⟩, hfresh⟩, -⟩ := hen
    obtain ⟨hpos, hnone, hnever⟩ := hf.ungreeted hungreeted
    exact ⟨hpos, hf.armed harmed, hf.quiet hquiet, hf.unheard hcallee, hf.fresh hfresh, hnone, hnever⟩
  | _ => rw [hinput] at hgreet; cases hgreet

/-- Every greeting so far was in place, and the flags are those of the inputs. -/
def Greets (cfg : ServerConfig) (observe : V → List Sample → Bool × V) (vad : V) (answered : Bool)
    (tr : List (DriverInput × ℕ)) (r : DriverRun V) : Prop :=
  (∀ before input, before ++ [input] <+: tr → input.1.isGreet = true → MayGreet cfg observe vad answered before) ∧
    ∀ d, r.status = .looping d → d.Flags cfg observe vad answered tr

theorem greets_init : Greets cfg observe vad answered [] (init cfg vad answered t₀) := by
  refine ⟨fun before input hpre => absurd (List.prefix_nil.mp hpre) (by simp), fun d hd => ?_⟩
  obtain rfl := DriverStatus.looping.inj hd
  exact Driver.flags_init t₀

theorem greets_step {input : DriverInput × ℕ} (hg : Greets cfg observe vad answered tr r)
    (h : step cfg observe r input = some r') : Greets cfg observe vad answered (tr ++ [input]) r' := by
  obtain ⟨d, hloop, hen, rfl⟩ := step_looping h
  have hf := hg.2 d hloop
  refine ⟨?_, fun d' hd' => ?_⟩
  · rw [Windows.forall_prefix_concat]
    exact ⟨hg.1, mayGreet_of_flags hf hen⟩
  · cases hnext : (d.react cfg observe input.2 input.1).2 with
    | «continue» e =>
      simp only [hnext, settle] at hd'
      obtain rfl := DriverStatus.looping.inj hd'
      exact Driver.flags_react hf hnext
    | «break» e endedBy goal =>
      simp only [hnext, settle] at hd'
      cases hd'

theorem greets_run (hrun : Run (step cfg observe) Always (init cfg vad answered t₀) tr r) :
    Greets cfg observe vad answered tr r :=
  hrun.trace_invariant greets_init fun _ _ _ _ hg _ hs => greets_step hg hs

theorem greet_once (h : ∀ before input, before ++ [input] <+: tr → input.1.isGreet = true →
    ∀ i ∈ before, i.1.isGreet = false) : tr.countP (fun i => i.1.isGreet) ≤ 1 := by
  induction tr using List.reverseRecOn with
  | nil => exact Nat.zero_le 1
  | append_singleton l a ih =>
    obtain ⟨hold, hlast⟩ := Windows.forall_prefix_concat.mp h
    rw [List.countP_append, List.countP_singleton]
    split_ifs with ha
    · have hzero : l.countP (fun i => i.1.isGreet) = 0 :=
        List.countP_eq_zero.mpr fun i hi => by rw [hlast ha i hi]; exact Bool.false_ne_true
      omega
    · exact ih hold

/-- The greeting is sent once at most, and where it may be; a reconnect interrupts once, and asks the
model to resume exactly when context was lost in the middle of an exchange; the only other texts
are those injected. -/
theorem cue_discipline (hrun : Run (step cfg observe) Always (init cfg vad answered t₀) tr r) :
    tr.countP (fun i => i.1.isGreet) ≤ 1 ∧
    (∀ before input, before ++ [input] <+: tr → input.1.isGreet = true → MayGreet cfg observe vad answered before) ∧
    ∀ input r', step cfg observe r input = some r' →
      ∃ outs lost, r'.sent = r.sent ++ outs ∧ sentCues outs = cues cfg lost input.1 ∧
        (lost = true ↔ Pending observe vad tr) ∧ (input.1.reconnects = true → emits outs = [.interrupted]) := by
  have hg := greets_run hrun
  refine ⟨greet_once fun before input hpre hi => (hg.1 before input hpre hi).first, hg.1, ?_⟩
  intro input r' hs
  obtain ⟨d, hloop, -, rfl⟩ := step_looping hs
  refine ⟨_, d.resumeNeeded, rfl, Driver.react_cues d input.2 input.1, (hg.2 d hloop).lost, fun hre => ?_⟩
  rw [Driver.react_forwards]
  cases hinput : input.1 with
  | sessionOpened isReconnect resumed sendOk =>
    rw [hinput] at hre
    obtain rfl : isReconnect = true := hre
    rfl
  | _ => rw [hinput] at hre; cases hre

/-- The callee picks up and says nothing; after the greeting it speaks, and the session is reopened
without its context. -/
def silentCallee : List (DriverInput × ℕ) :=
  [(.answeredChanged true, 100), (.greetTimer true, 3000), (.transcript .user "hi" false, 4000),
    (.sessionOpened true false true, 5000)]

theorem cue_discipline_silentCallee :
    ∃ r, Run (step {} deafVad) Always (init {} () false 0) silentCallee r ∧
      MayGreet {} deafVad () false [(.answeredChanged true, 100)] ∧
      sentCues r.sent = [({} : ServerConfig).prompts.greetCue, ({} : ServerConfig).prompts.resumeCue] := by
  obtain ⟨r, hexec, hsent⟩ : ∃ r, exec (step {} deafVad) (init {} () false 0) silentCallee = some r ∧
      sentCues r.sent = [({} : ServerConfig).prompts.greetCue, ({} : ServerConfig).prompts.resumeCue] := ⟨_, rfl, rfl⟩
  have hrun := run_of_exec hexec
  have hmay := (cue_discipline hrun).2.1 [(.answeredChanged true, 100)] (.greetTimer true, 3000)
    ⟨[(.transcript .user "hi" false, 4000), (.sessionOpened true false true, 5000)], rfl⟩ rfl
  exact ⟨r, hrun, hmay, hsent⟩

end DriverRun

end Kutsu
