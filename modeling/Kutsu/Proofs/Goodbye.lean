import Kutsu.Proofs.Closing
import Kutsu.Proofs.Goal

/-! How a call is ended by the model. The first `end_call` only marks the driver as ending; it
goes on forwarding, and sends `EndCall` when a turn completes or ten seconds have passed. -/

namespace Kutsu

open Runs Talk

namespace DriverInput

def forwards : DriverInput → List Event
  | .sessionOpened isReconnect _ _ => if isReconnect then [.interrupted] else []
  | .outputAudio pcm => [.outputAudio pcm]
  | .transcript role delta final => [.transcript role delta final]
  | .affect role label => [.affect role label]
  | .interrupted => [.interrupted]
  | .turnComplete => [.turnComplete]
  | _ => []

theorem forwards_open (i : DriverInput) : ∀ ev ∈ i.forwards, ev.isEndCall = false := by
  cases i with
  | sessionOpened isReconnect resumed sendOk =>
    rw [forwards]
    split_ifs <;> simp [Event.isEndCall]
  | _ => simp [forwards, Event.isEndCall]

end DriverInput

def forwarded (tr : List (DriverInput × ℕ)) : List Event := tr.flatMap fun i => i.1.forwards

theorem forwarded_open (tr : List (DriverInput × ℕ)) : ∀ ev ∈ forwarded tr, ev.isEndCall = false := by
  intro ev hev
  obtain ⟨i, -, hi⟩ := List.mem_flatMap.mp hev
  exact i.1.forwards_open ev hi

theorem forwarded_concat (tr : List (DriverInput × ℕ)) (i : DriverInput × ℕ) :
    forwarded (tr ++ [i]) = forwarded tr ++ i.1.forwards := by
  rw [forwarded, List.flatMap_append, List.flatMap_singleton]
  rfl

variable {V : Type} {cfg : ServerConfig} {observe : V → List Sample → Bool × V}

namespace Driver

variable {d d' : Driver V} {now : ℕ} {input : DriverInput}

theorem react_forwards (cfg : ServerConfig) (observe : V → List Sample → Bool × V) (d : Driver V)
    (now : ℕ) (input : DriverInput) :
    emits (d.react cfg observe now input).1 =
      input.forwards ++ if input.carriesOut then d.ending.toList.map Event.endCall else [] := by
  cases input with
  | sessionOpened isReconnect resumed sendOk =>
    cases isReconnect with
    | false => rfl
    | true =>
      simp only [react, onReconnect, if_pos]
      cases (!resumed && d.resumeNeeded) <;> rfl
  | endingTimer =>
    rw [react]
    cases d.ending <;> rfl
  | turnComplete =>
    simp only [react, onTurnComplete]
    cases d.ending <;> rfl
  | toolCall name id args =>
    simp only [react, onToolCall]
    by_cases hname : name = "end_call"
    · rw [if_pos hname]
      rfl
    · rw [if_neg hname]
      rfl
  | _ => rfl

theorem breaks_of_carriesOut (cfg : ServerConfig) (observe : V → List Sample → Bool × V) (now : ℕ)
    {goal : Json} (hend : d.ending = some goal) (hcarry : input.carriesOut = true) :
    ∃ d', (d.react cfg observe now input).2 = .break d' .modelEndCall (some goal) := by
  cases input with
  | turnComplete =>
    simp only [react, onTurnComplete, hend]
    exact ⟨_, rfl⟩
  | endingTimer =>
    rw [react, hend]
    exact ⟨_, rfl⟩
  | _ => cases hcarry

/-- The deadline is set by the first `end_call` and by nothing else. -/
theorem endingDeadline_react (cfg : ServerConfig) (observe : V → List Sample → Bool × V) (d : Driver V)
    (now : ℕ) (input : DriverInput) :
    (d.react cfg observe now input).2.driver.endingDeadline =
      if d.ending.isNone && input.endCallArgs.isSome then now + 10000 else d.endingDeadline := by
  have keep : ∀ deadline : ℕ,
      d.endingDeadline = if d.ending.isNone && (none : Option Json).isSome then deadline else d.endingDeadline := by
    intro deadline
    rw [Option.isSome_none, Bool.and_false, if_neg Bool.false_ne_true]
  cases input with
  | answeredChanged answered => cases answered <;> exact keep _
  | greetTimer sendOk | audio pcm sendOk => cases sendOk <;> exact keep _
  | endingTimer =>
    rw [react]
    cases d.ending <;> rfl
  | sessionOpened isReconnect resumed sendOk =>
    cases isReconnect with
    | false => exact keep _
    | true =>
      simp only [react, onReconnect, if_pos]
      cases (!resumed && d.resumeNeeded) <;> cases sendOk <;> exact keep _
  | turnComplete =>
    simp only [react, onTurnComplete]
    cases d.ending <;> rfl
  | toolCall name id args =>
    simp only [react, onToolCall, DriverInput.endCallArgs]
    by_cases hname : name = "end_call"
    · cases hend : d.ending <;> simp [hname, DriverNext.driver]
    · simp only [if_neg hname]
      exact keep _
  | _ => exact keep _

/-- While an end is pending, a further `end_call` is acknowledged and nothing more. -/
theorem react_again {goal args : Json} {id : String} (hend : d.ending = some goal) :
    d.react cfg observe now (.toolCall "end_call" id args) = ([.toolResponse id], .continue d) := by
  simp [react, onToolCall, hend]

end Driver

namespace DriverRun

variable {vad : V} {answered : Bool} {t₀ : ℕ} {tr : List (DriverInput × ℕ)} {r r' : DriverRun V}

def FirstEndCall (tr : List (DriverInput × ℕ)) (goal : Json) (time : ℕ) (later : List (DriverInput × ℕ)) : Prop :=
  ∃ before id, tr = before ++ (.toolCall "end_call" id goal, time) :: later ∧ submitted before = none

theorem FirstEndCall.concat {goal : Json} {time : ℕ} {later : List (DriverInput × ℕ)}
    (h : FirstEndCall tr goal time later) (i : DriverInput × ℕ) :
    FirstEndCall (tr ++ [i]) goal time (later ++ [i]) := by
  obtain ⟨before, id, rfl, hbefore⟩ := h
  exact ⟨before, id, by simp, hbefore⟩

/-- An `EndCall` was sent, last of all: its goal is that of the first `end_call`, and either a turn
completed since or the deadline was reached. -/
def EndSent (tr : List (DriverInput × ℕ)) (sent : List DriverOut) (goal : Json) : Prop :=
  emits sent = forwarded tr ++ [.endCall goal] ∧
    ∃ time later last, FirstEndCall tr goal time (later ++ [last]) ∧
      (last.1 = .turnComplete ∨ last.1 = .endingTimer ∧ time + 10000 ≤ last.2)

/-- What has been sent, and while the driver loops when a pending end is due. -/
def Ends (tr : List (DriverInput × ℕ)) (r : DriverRun V) : Prop :=
  match r.status with
  | .looping d => emits r.sent = forwarded tr ∧ d.ending = submitted tr ∧
      ∀ goal, d.ending = some goal → ∃ time later, FirstEndCall tr goal time later ∧
        d.endingDeadline = time + 10000
  | .returned o => emits r.sent = forwarded tr ∨ ∃ goal, o.goal = some goal ∧ EndSent tr r.sent goal

theorem emits_append (a b : List DriverOut) : emits (a ++ b) = emits a ++ emits b := List.filterMap_append

theorem endCallArgs_eq_some {input : DriverInput} {goal : Json} (h : input.endCallArgs = some goal) :
    ∃ id, input = .toolCall "end_call" id goal := by
  cases input with
  | toolCall name id args =>
    rw [DriverInput.endCallArgs] at h
    split_ifs at h with hname
    obtain rfl := Option.some.inj h
    exact ⟨id, by rw [hname]⟩
  | _ => cases h

theorem due_react {d d' : Driver V} {input : DriverInput × ℕ} {goal : Json} (hend : d.ending = submitted tr)
    (hdue : ∀ goal, d.ending = some goal → ∃ time later, FirstEndCall tr goal time later ∧
      d.endingDeadline = time + 10000)
    (hnext : (d.react cfg observe input.2 input.1).2 = .continue d') (hgoal : d'.ending = some goal) :
    ∃ time later, FirstEndCall (tr ++ [input]) goal time later ∧ d'.endingDeadline = time + 10000 := by
  have hdead := Driver.endingDeadline_react cfg observe d input.2 input.1
  have hpend := Driver.ending_of_continue hnext
  rw [hnext, DriverNext.driver] at hdead
  cases hold : d.ending with
  | some g =>
    rw [hold, Option.some_or, hgoal] at hpend
    obtain rfl := Option.some.inj hpend
    obtain ⟨time, later, hfirst, htime⟩ := hdue goal hold
    rw [hold, Option.isNone_some, Bool.false_and, if_neg Bool.false_ne_true] at hdead
    exact ⟨time, later ++ [input], hfirst.concat input, hdead.trans htime⟩
  | none =>
    rw [hold, Option.none_or, hgoal] at hpend
    rw [hold, ← hpend, Option.isNone_none, Option.isSome_some, Bool.and_self, if_pos rfl] at hdead
    obtain ⟨id, hinput⟩ := endCallArgs_eq_some hpend.symm
    refine ⟨input.2, [], ⟨tr, id, ?_, hend ▸ hold⟩, hdead⟩
    rw [← hinput]

theorem ends_step {input : DriverInput × ℕ} (he : Ends tr r) (h : step cfg observe r input = some r') :
    Ends (tr ++ [input]) r' := by
  obtain ⟨d, hloop, hen, rfl⟩ := step_looping h
  rw [Ends, hloop] at he
  obtain ⟨hsent, hend, hdue⟩ := he
  have hout := Driver.react_forwards cfg observe d input.2 input.1
  -- without an end to carry out, exactly the input is forwarded
  have hplain : (input.1.carriesOut = true → d.ending = none) →
      emits (r.sent ++ (d.react cfg observe input.2 input.1).1) = forwarded (tr ++ [input]) := by
    intro hno
    rw [emits_append, hsent, hout, forwarded_concat]
    split_ifs with hcarry
    · rw [hno hcarry]
      exact congrArg (forwarded tr ++ ·) (List.append_nil _)
    · rw [List.append_nil]
  unfold Ends
  cases hnext : (d.react cfg observe input.2 input.1).2 with
  | «continue» d' =>
    refine ⟨hplain fun hcarry => ?_, ?_, fun goal hgoal => due_react hend hdue hnext hgoal⟩
    · by_contra hsome
      obtain ⟨goal, hgoal⟩ := Option.ne_none_iff_exists'.mp hsome
      obtain ⟨d'', hbreak⟩ := Driver.breaks_of_carriesOut cfg observe input.2 hgoal hcarry
      rw [hnext] at hbreak
      cases hbreak
    · rw [Driver.ending_of_continue hnext, hend, submitted_append]
  | «break» d' endedBy goal =>
    have hgoal := Driver.goal_of_break hnext
    by_cases hcarry : input.1.carriesOut = true ∧ d.ending.isSome = true
    · obtain ⟨hcarry, hsome⟩ := hcarry
      obtain ⟨g, hg⟩ := Option.isSome_iff_exists.mp hsome
      obtain ⟨time, later, hfirst, htime⟩ := hdue g hg
      rw [if_pos hcarry, hg] at hgoal
      refine Or.inr ⟨g, hgoal, ?_, time, later, input, hfirst.concat input, ?_⟩
      · rw [emits_append, hsent, hout, if_pos hcarry, hg, forwarded_concat, List.append_assoc]
        rfl
      · cases hinput : input.1 with
        | turnComplete => exact Or.inl rfl
        | endingTimer =>
          rw [hinput, Driver.enabled, Bool.and_eq_true, decide_eq_true_eq, htime] at hen
          exact Or.inr ⟨rfl, hen.2⟩
        | _ => rw [hinput] at hcarry; cases hcarry
    · refine Or.inl (hplain fun hc => ?_)
      rw [← Option.not_isSome_iff_eq_none]
      exact fun hsome => hcarry ⟨hc, hsome⟩

theorem ends_init : Ends [] (init cfg vad answered t₀) :=
  ⟨rfl, rfl, fun goal h => absurd h (by simp [Driver.init])⟩

theorem ends_run (hrun : Run (step cfg observe) Always (init cfg vad answered t₀) tr r) : Ends tr r :=
  hrun.trace_invariant ends_init fun _ _ _ _ he _ hs => ends_step he hs

theorem endCall_not_forwarded {goal : Json} : Event.endCall goal ∉ forwarded tr :=
  fun h => Bool.noConfusion (forwarded_open tr _ h)

theorem endLast_of_ends (he : Ends tr r) : EndLast (emits r.sent) := by
  have hopen : EndLast (forwarded tr) :=
    fun ev hev hend => absurd hend (by rw [forwarded_open tr ev hev]; exact Bool.false_ne_true)
  unfold Ends at he
  split at he
  · rw [he.1]
    exact hopen
  · rcases he with hplain | ⟨goal, -, hsent, -⟩
    · rw [hplain]
      exact hopen
    · rw [hsent]
      refine EndLast.append (forwarded_open tr) fun ev hev _ => ?_
      obtain rfl := List.mem_singleton.mp hev
      exact ⟨[], rfl, fun x hx => absurd hx List.not_mem_nil⟩

theorem endSent_of_mem (he : Ends tr r) {goal : Json} (hmem : Event.endCall goal ∈ emits r.sent) :
    EndSent tr r.sent goal ∧ ∃ o, r.status = .returned o ∧ o.goal = some goal := by
  unfold Ends at he
  split at he
  · rw [he.1] at hmem
    exact absurd hmem endCall_not_forwarded
  · rename_i o hret
    rcases he with hplain | ⟨g, hgoal, hend⟩
    · rw [hplain] at hmem
      exact absurd hmem endCall_not_forwarded
    · rw [hend.1] at hmem
      rcases List.mem_append.mp hmem with hmem | hmem
      · exact absurd hmem endCall_not_forwarded
      · obtain rfl := Event.endCall.inj (List.mem_singleton.mp hmem)
        exact ⟨hend, o, hret, hgoal⟩

/-- `EndCall` is the last event and comes once, everything else is forwarded before it, and later
calls of the tool change nothing. -/
theorem end_discipline (hrun : Run (step cfg observe) Always (init cfg vad answered t₀) tr r) :
    EndLast (emits r.sent) ∧
    (∀ goal, Event.endCall goal ∈ emits r.sent →
      EndSent tr r.sent goal ∧ ∃ o, r.status = .returned o ∧ o.goal = some goal) ∧
    ∀ goal id args now r', submitted tr = some goal →
      step cfg observe r (.toolCall "end_call" id args, now) = some r' →
      r'.status = r.status ∧ r'.sent = r.sent ++ [.toolResponse id] := by
  have he := ends_run hrun
  refine ⟨endLast_of_ends he, fun goal hmem => endSent_of_mem he hmem, ?_⟩
  intro goal id args now r' hsub hs
  obtain ⟨d, hloop, -, rfl⟩ := step_looping hs
  rw [Ends, hloop] at he
  rw [Driver.react_again (he.2.1.trans hsub), hloop]
  exact ⟨rfl, rfl⟩

/-- The model calls the tool, speaks its goodbye, calls the tool again and completes the turn. -/
def lastWords : List (DriverInput × ℕ) :=
  [(.toolCall "end_call" "1" (.str "done"), 0), (.outputAudio [0], 1),
    (.toolCall "end_call" "2" (.str "again"), 2), (.turnComplete, 3)]

theorem end_discipline_lastWords :
    ∃ r, Run (step {} deafVad) Always (init {} () true 0) lastWords r ∧ EndSent lastWords r.sent (.str "done") ∧
      ∃ o, r.status = .returned o ∧ o.goal = some (.str "done") := by
  obtain ⟨r, hexec, hsent⟩ : ∃ r, exec (step {} deafVad) (init {} () true 0) lastWords = some r ∧
      emits r.sent = [.outputAudio [0], .turnComplete, .endCall (.str "done")] := ⟨_, rfl, rfl⟩
  have hrun := run_of_exec hexec
  exact ⟨r, hrun, (end_discipline hrun).2.1 (.str "done") (by rw [hsent]; simp)⟩

end DriverRun

end Kutsu
