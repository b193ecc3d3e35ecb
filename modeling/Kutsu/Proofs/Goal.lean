import Kutsu.Lib.Run
import Kutsu.Model.Driver

/-! What becomes of a submitted goal. The driver keeps the first `end_call`'s arguments
in `ending` for as long as it loops; only a completed turn and the ten second cap carry
them out of the loop. -/

namespace Kutsu

def DriverInput.endCallArgs : DriverInput → Option Json
  | .toolCall name _ args => if name = "end_call" then some args else none
  | _ => none

/-- The arguments of the first `end_call` among the inputs. -/
def submitted (inputs : List (DriverInput × ℕ)) : Option Json :=
  inputs.findSome? fun i => i.1.endCallArgs

/-- The two inputs on which a pending end is carried out. -/
def DriverInput.carriesOut : DriverInput → Bool
  | .turnComplete => true
  | .endingTimer => true
  | _ => false

theorem submitted_append (tr : List (DriverInput × ℕ)) (i : DriverInput × ℕ) :
    submitted (tr ++ [i]) = (submitted tr).or i.1.endCallArgs := by
  rw [submitted, List.findSome?_append, List.findSome?_singleton]
  rfl

variable {V : Type} {cfg : ServerConfig} {observe : V → List Sample → Bool × V}

@[simp] def DriverNext.driver : DriverNext V → Driver V
  | .continue d => d
  | .break d _ _ => d

namespace Driver

variable {d d' : Driver V} {now : ℕ} {input : DriverInput}

/-- An iteration that stays in the loop: `ending` takes the arguments of the first
`end_call` and is otherwise left alone. -/
theorem ending_of_continue (h : (d.react cfg observe now input).2 = .continue d') :
    d'.ending = d.ending.or input.endCallArgs := by
  have keep : ∀ {e : Driver V}, DriverNext.continue e = .continue d' → e.ending = d.ending →
      d'.ending = d.ending.or none := by
    intro e he hend
    obtain rfl := DriverNext.continue.inj he
    rw [hend, Option.or_none]
  cases input with
  | answeredChanged answered =>
    cases answered
    · exact keep h rfl
    · exact keep h rfl
  | greetTimer sendOk | audio pcm sendOk =>
    cases sendOk
    · cases h
    · exact keep h rfl
  | endingTimer =>
    rw [react] at h
    split at h
    · cases h
    · exact keep h rfl
  | sessionOpened isReconnect resumed sendOk =>
    simp only [react, onReconnect] at h
    split at h
    · split at h
      · cases sendOk
        · cases h
        · exact keep h rfl
      · exact keep h rfl
    · exact keep h rfl
  | turnComplete =>
    simp only [react, onTurnComplete] at h
    split at h
    · cases h
    · exact keep h rfl
  | toolCall name id args =>
    simp only [react, onToolCall] at h
    split at h
    · rename_i hname
      rw [DriverInput.endCallArgs, if_pos hname]
      obtain rfl := DriverNext.continue.inj h
      cases hend : d.ending with
      | none => simp
      | some goal => simp [hend]
    · rename_i hname
      rw [DriverInput.endCallArgs, if_neg hname]
      exact keep h rfl
  | audioClosed | sessionClosed | hangup => cases h
  | answeredClosed | outputAudio | transcript | affect | interrupted | text | textClosed =>
    exact keep h rfl

/-- An iteration that leaves the loop: the pending goal comes along only on a completed
turn or on the cap. -/
theorem goal_of_break {endedBy : EndedBy} {goal : Option Json}
    (h : (d.react cfg observe now input).2 = .break d' endedBy goal) :
    goal = if input.carriesOut then d.ending else none := by
  cases input with
  | answeredChanged | answeredClosed | outputAudio | transcript | affect | interrupted
  | text | textClosed => cases h
  | greetTimer sendOk | audio pcm sendOk =>
    cases sendOk
    · injection h with _ _ hgoal; exact hgoal.symm
    · cases h
  | endingTimer =>
    rw [react] at h
    split at h
    · rename_i g hend
      injection h with _ _ hgoal
      rw [DriverInput.carriesOut, if_pos rfl, hend, hgoal]
    · cases h
  | sessionOpened isReconnect resumed sendOk =>
    simp only [react, onReconnect] at h
    split at h
    · split at h
      · cases sendOk
        · injection h with _ _ hgoal; exact hgoal.symm
        · cases h
      · cases h
    · cases h
  | turnComplete =>
    simp only [react, onTurnComplete] at h
    split at h
    · rename_i g hend
      injection h with _ _ hgoal
      rw [DriverInput.carriesOut, if_pos rfl, hend, hgoal]
    · cases h
  | toolCall name id args =>
    simp only [react, onToolCall] at h
    split at h <;> cases h
  | audioClosed | sessionClosed | hangup => injection h with _ _ hgoal; exact hgoal.symm

end Driver

namespace DriverRun

open Runs

theorem step_looping {r r' : DriverRun V} {input : DriverInput × ℕ} (h : step cfg observe r input = some r') :
    ∃ d, r.status = .looping d ∧ d.enabled input.2 input.1 = true ∧
      r' = ⟨settle input.2 (d.react cfg observe input.2 input.1).2,
        r.sent ++ (d.react cfg observe input.2 input.1).1⟩ := by
  rw [step] at h
  split at h
  · rename_i d hloop
    split_ifs at h with hen
    exact ⟨d, hloop, hen, (Option.some.inj h).symm⟩
  · cases h

/-- What the inputs so far say about the driver: `ending` while it loops, the goal once
it has returned. -/
def Tracks (tr : List (DriverInput × ℕ)) (r : DriverRun V) : Prop :=
  match r.status with
  | .looping d => d.ending = submitted tr
  | .returned o => ∃ pre last, tr = pre ++ [last] ∧ last.1.endCallArgs = none ∧
      o.goal = if last.1.carriesOut then submitted pre else none

theorem endCallArgs_of_break {d d' : Driver V} {now : ℕ} {input : DriverInput}
    {endedBy : EndedBy} {goal : Option Json}
    (h : (d.react cfg observe now input).2 = .break d' endedBy goal) :
    input.endCallArgs = none := by
  cases input with
  | toolCall name id args =>
    simp only [Driver.react, Driver.onToolCall] at h
    split at h <;> cases h
  | _ => rfl

theorem tracks_step {tr : List (DriverInput × ℕ)} {r r' : DriverRun V}
    {input : DriverInput × ℕ} (ht : Tracks tr r) (h : step cfg observe r input = some r') :
    Tracks (tr ++ [input]) r' := by
  obtain ⟨d, hloop, -, rfl⟩ := step_looping h
  have hend : d.ending = submitted tr := by rw [Tracks, hloop] at ht; exact ht
  unfold Tracks
  cases hnext : (d.react cfg observe input.2 input.1).2 with
  | «continue» d' =>
    simp only [settle]
    rw [Driver.ending_of_continue hnext, hend, submitted_append]
  | «break» d' endedBy goal =>
    simp only [settle]
    refine ⟨tr, input, rfl, endCallArgs_of_break hnext, ?_⟩
    rw [← hend]
    exact Driver.goal_of_break hnext

variable {vad : V} {answered : Bool} {t₀ : ℕ} {tr : List (DriverInput × ℕ)} {r : DriverRun V}
  {o : CallOutcome} {args : Json}

theorem tracks_init : Tracks [] (init cfg vad answered t₀) := rfl

theorem tracks_run (hrun : Run (step cfg observe) Always (init cfg vad answered t₀) tr r) :
    Tracks tr r :=
  hrun.trace_invariant tracks_init fun _ _ _ _ ht _ hs => tracks_step ht hs

/-- A submitted goal is in the outcome exactly when the driver left its loop on a
completed turn or on the cap. -/
theorem goal_kept_iff (hrun : Run (step cfg observe) Always (init cfg vad answered t₀) tr r)
    (hsub : submitted tr = some args) (hret : r.status = .returned o) :
    o.goal = some args ↔ ∃ last, tr.getLast? = some last ∧ last.1.carriesOut = true := by
  have ht := tracks_run hrun
  rw [Tracks, hret] at ht
  obtain ⟨pre, last, rfl, hnone, hgoal⟩ := ht
  rw [submitted_append, hnone, Option.or_none] at hsub
  rw [List.getLast?_concat, hgoal, hsub]
  constructor
  · intro h
    refine ⟨last, rfl, ?_⟩
    by_contra hcarry
    rw [if_neg hcarry] at h
    cases h
  · rintro ⟨last', hlast, hcarry⟩
    obtain rfl := Option.some.inj hlast
    rw [if_pos hcarry]

/-- A VAD that never fires. -/
def deafVad (v : Unit) (_ : List Sample) : Bool × Unit := (false, v)

def submitThen (input : DriverInput) : List (DriverInput × ℕ) :=
  [(.toolCall "end_call" "1" (.str "done"), 0), (input, 1)]

theorem goal_kept_on_turnComplete :
    (∃ last, (submitThen .turnComplete).getLast? = some last ∧ last.1.carriesOut = true) ∧
    ∃ r o, Run (step {} deafVad) Always (init {} () true 0) (submitThen .turnComplete) r ∧
      r.status = .returned o ∧ o.goal = some (.str "done") := by
  have hlast : ∃ last, (submitThen .turnComplete).getLast? = some last ∧
      last.1.carriesOut = true := ⟨(.turnComplete, 1), rfl, rfl⟩
  obtain ⟨r, o, hexec, hret⟩ : ∃ r o, exec (step {} deafVad) (init {} () true 0)
      (submitThen .turnComplete) = some r ∧ r.status = .returned o := ⟨_, _, rfl, rfl⟩
  exact ⟨hlast, r, o, run_of_exec hexec, hret,
    (goal_kept_iff (run_of_exec hexec) rfl hret).mpr hlast⟩

/-- The callee hangs up after the goal was submitted, and it is gone. -/
theorem goal_lost_on_hangup :
    ∃ r o, Run (step {} deafVad) Always (init {} () true 0) (submitThen .hangup) r ∧
      submitted (submitThen .hangup) = some (.str "done") ∧ r.status = .returned o ∧
      o.goal = none :=
  ⟨_, _, run_of_exec rfl, rfl, rfl, rfl⟩

end DriverRun

end Kutsu
