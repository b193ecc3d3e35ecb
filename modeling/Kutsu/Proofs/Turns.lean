import Kutsu.Lib.Run
import Kutsu.Lib.Window
import Kutsu.Model.Driver
import Kutsu.Proofs.Goal

/-! The transcript a driver returns. Its inputs, cut at every completed turn, are the turns; while
the driver loops, `transcript` has the turns that are closed and `acc` the one that is open. -/

namespace Kutsu

open Runs

namespace DriverInput

@[simp] def endsTurn : DriverInput → Bool
  | .turnComplete => true
  | _ => false

def delta? : DriverInput → Option (Role × String)
  | .transcript role delta _ => some (role, delta)
  | _ => none

end DriverInput

def turns (tr : List (DriverInput × ℕ)) : List (List (Role × String)) :=
  (tr.splitOnP fun i => i.1.endsTurn).map fun seg => seg.filterMap fun i => i.1.delta?

def spoken (role : Role) (turn : List (Role × String)) : String :=
  ((turn.filter fun x => x.1 = role).map Prod.snd).foldl (· ++ ·) ""

/-- The entry of a role, left out when it says nothing but white space. -/
def said (role : Role) (turn : List (Role × String)) : List (Role × String) :=
  if (spoken role turn).toList.all isWhitespace then [] else [(role, trim (spoken role turn))]

def reference (tr : List (DriverInput × ℕ)) : List (Role × String) :=
  (turns tr).flatMap fun turn => said .user turn ++ said .model turn

def TranscriptEntry.line (e : TranscriptEntry) : Role × String := (e.role, e.text)

theorem spoken_concat (role r : Role) (text : String) (turn : List (Role × String)) :
    spoken role (turn ++ [(r, text)]) = if r = role then spoken role turn ++ text else spoken role turn := by
  rw [spoken, List.filter_append, List.map_append, List.foldl_append]
  split_ifs with h
  · simp [h, spoken]
  · simp [h, spoken]

theorem trim_isEmpty (s : String) : (trim s).isEmpty = s.toList.all isWhitespace := by
  have hdrop : ∀ l : List Char, l.dropWhile isWhitespace = [] ↔ ∀ c ∈ l, isWhitespace c = true := by
    intro l
    rw [List.dropWhile_eq_nil_iff]
  rw [Bool.eq_iff_iff, String.isEmpty_iff, trim, String.ofList_eq_empty_iff, List.reverse_eq_nil_iff, hdrop,
    List.all_eq_true]
  constructor
  · intro h
    have hall : s.toList.dropWhile isWhitespace = [] := by
      by_contra hne
      have hhead := List.head_dropWhile_not isWhitespace hne
      rw [h _ (List.mem_reverse.mpr (List.head_mem hne))] at hhead
      cases hhead
    exact (hdrop _).mp hall
  · intro h c hc
    exact h c ((List.dropWhile_sublist _).mem (List.mem_reverse.mp hc))

namespace TranscriptAccumulator

/-- The buffers hold what the roles have said in the turn. -/
def Holds (acc : TranscriptAccumulator) (turn : List (Role × String)) : Prop :=
  acc.user = spoken .user turn ∧ acc.model = spoken .model turn

variable {acc : TranscriptAccumulator} {turn : List (Role × String)}

theorem holds_nil : Holds {} [] := ⟨rfl, rfl⟩

theorem holds_onDelta (h : acc.Holds turn) (role : Role) (text : String) :
    (acc.onDelta role text).Holds (turn ++ [(role, text)]) := by
  obtain ⟨hu, hm⟩ := h
  rw [Holds, spoken_concat, spoken_concat]
  cases role with
  | user => exact ⟨by simp [onDelta, hu], by simp [onDelta, hm]⟩
  | model => exact ⟨by simp [onDelta, hu], by simp [onDelta, hm]⟩

theorem entry_said (role : Role) (tsMs : ℕ) :
    (entry role (spoken role turn) tsMs).map TranscriptEntry.line = said role turn := by
  rw [entry, said, trim_isEmpty]
  split_ifs <;> rfl

theorem flush_said (h : acc.Holds turn) (tsMs : ℕ) :
    (acc.flush tsMs).1.map TranscriptEntry.line = said .user turn ++ said .model turn := by
  rw [flush, List.map_append, h.1, h.2, entry_said, entry_said]

end TranscriptAccumulator

variable {V : Type} {cfg : ServerConfig} {observe : V → List Sample → Bool × V}

namespace Driver

/-- What an input does to the transcript: only a completed turn and a delta touch it. -/
def heard (d : Driver V) (now : ℕ) : DriverInput → List TranscriptEntry × TranscriptAccumulator
  | .turnComplete => (d.transcript ++ (d.acc.flush (now - d.startedMs)).1, (d.acc.flush (now - d.startedMs)).2)
  | .transcript role delta _ => (d.transcript, d.acc.onDelta role delta)
  | _ => (d.transcript, d.acc)

theorem react_heard (cfg : ServerConfig) (observe : V → List Sample → Bool × V) (d : Driver V) (now : ℕ)
    (input : DriverInput) :
    ((d.react cfg observe now input).2.driver.transcript, (d.react cfg observe now input).2.driver.acc) =
      d.heard now input := by
  cases input with
  | answeredChanged answered => cases answered <;> rfl
  | greetTimer sendOk | audio pcm sendOk => cases sendOk <;> rfl
  | endingTimer =>
    rw [react]
    cases d.ending <;> rfl
  | sessionOpened isReconnect resumed sendOk =>
    cases isReconnect with
    | false => rfl
    | true =>
      simp only [react, onReconnect, if_pos]
      split_ifs
      all_goals rfl
  | turnComplete =>
    simp only [react, onTurnComplete]
    cases d.ending <;> rfl
  | toolCall name id args =>
    simp only [react, onToolCall]
    split_ifs <;> rfl
  | _ => rfl

/-- The transcript so far is that of the closed turns, and the buffers hold the open one. -/
def Transcribes (tr : List (DriverInput × ℕ)) (d : Driver V) : Prop :=
  ∃ closed op, turns tr = closed ++ [op] ∧ d.acc.Holds op ∧
    d.transcript.map TranscriptEntry.line = closed.flatMap fun turn => said .user turn ++ said .model turn

variable {d : Driver V} {now : ℕ} {tr : List (DriverInput × ℕ)}

theorem turns_concat {closed : List (List (Role × String))} {op : List (Role × String)}
    (h : turns tr = closed ++ [op]) (input : DriverInput) (now : ℕ) :
    turns (tr ++ [(input, now)]) =
      if input.endsTurn then closed ++ [op] ++ [[]] else closed ++ [op ++ input.delta?.toList] := by
  obtain ⟨segs, seg, hsegs⟩ := Windows.exists_splitOnP_concat (fun i : DriverInput × ℕ => i.1.endsTurn) tr
  rw [turns, hsegs, List.map_append] at h
  obtain ⟨rfl, hop⟩ := List.append_inj' h rfl
  obtain rfl := List.singleton_inj.mp hop
  rw [turns, Windows.splitOnP_concat hsegs]
  split_ifs
  · simp
  · rw [List.map_append, List.map_singleton, List.filterMap_append]
    cases hdelta : input.delta? with
    | none => simp [hdelta]
    | some x => simp [hdelta]

theorem transcribes_react (cfg : ServerConfig) (observe : V → List Sample → Bool × V) (h : d.Transcribes tr)
    (input : DriverInput) (now : ℕ) :
    (d.react cfg observe now input).2.driver.Transcribes (tr ++ [(input, now)]) := by
  obtain ⟨closed, op, hturns, hacc, htr⟩ := h
  have hnext := turns_concat hturns input now
  obtain ⟨htrans, haccum⟩ := Prod.mk.inj (react_heard cfg observe d now input)
  rw [Transcribes, htrans, haccum]
  cases input with
  | turnComplete =>
    refine ⟨closed ++ [op], [], hnext, TranscriptAccumulator.holds_nil, ?_⟩
    dsimp only
    rw [List.map_append, htr, TranscriptAccumulator.flush_said hacc, List.flatMap_append,
      List.flatMap_singleton]
  | transcript role delta final =>
    exact ⟨closed, op ++ [(role, delta)], hnext, TranscriptAccumulator.holds_onDelta hacc role delta, htr⟩
  | _ => exact ⟨closed, op, hnext.trans (by simp [DriverInput.endsTurn, DriverInput.delta?]), hacc, htr⟩

theorem finish_transcript (h : d.Transcribes tr) (endedBy : EndedBy) (goal : Option Json) :
    (d.finish now endedBy goal).transcript.map TranscriptEntry.line = reference tr := by
  obtain ⟨closed, op, hturns, hacc, htr⟩ := h
  rw [finish, List.map_append, htr, TranscriptAccumulator.flush_said hacc, reference, hturns, List.flatMap_append,
    List.flatMap_singleton]

end Driver

namespace DriverRun

variable {vad : V} {answered : Bool} {t₀ : ℕ} {tr : List (DriverInput × ℕ)} {r r' : DriverRun V} {o : CallOutcome}

/-- The driver transcribes its inputs while it loops, and has them all in its outcome. -/
def Transcript (tr : List (DriverInput × ℕ)) (r : DriverRun V) : Prop :=
  match r.status with
  | .looping d => d.Transcribes tr
  | .returned o => o.transcript.map TranscriptEntry.line = reference tr

theorem transcript_step {input : DriverInput × ℕ} (ht : Transcript tr r) (h : step cfg observe r input = some r') :
    Transcript (tr ++ [input]) r' := by
  obtain ⟨d, hloop, -, rfl⟩ := step_looping h
  rw [Transcript, hloop] at ht
  have hnext := Driver.transcribes_react cfg observe ht input.1 input.2
  unfold Transcript
  cases hout : (d.react cfg observe input.2 input.1).2 with
  | «continue» d' =>
    rw [hout] at hnext
    exact hnext
  | «break» d' endedBy goal =>
    rw [hout] at hnext
    exact Driver.finish_transcript hnext endedBy goal

theorem transcript_init : Transcript [] (init cfg vad answered t₀) :=
  ⟨[], [], rfl, TranscriptAccumulator.holds_nil, rfl⟩

/-- The session's transcript is its turns, complete and in order. -/
theorem transcript_turns (hrun : Run (step cfg observe) Always (init cfg vad answered t₀) tr r)
    (hret : r.status = .returned o) : o.transcript.map TranscriptEntry.line = reference tr := by
  have ht : Transcript tr r :=
    hrun.trace_invariant transcript_init fun _ _ _ _ ht _ hs => transcript_step ht hs
  rwa [Transcript, hret] at ht

/-- Two interleaved speakers, a silent turn and a goodbye cut off by the callee. -/
def chat : List (DriverInput × ℕ) :=
  [(.transcript .model "Hello " false, 1), (.transcript .user "hi" false, 2), (.transcript .model "there " true, 3),
    (.turnComplete, 4), (.transcript .user " " false, 5), (.turnComplete, 6), (.transcript .model "By" false, 7),
    (.hangup, 8)]

theorem transcript_turns_chat :
    ∃ r o, Run (step {} deafVad) Always (init {} () true 0) chat r ∧ r.status = .returned o ∧
      o.transcript.map TranscriptEntry.line = reference chat ∧
      reference chat = [(.user, "hi"), (.model, "Hello there"), (.model, "By")] := by
  obtain ⟨r, o, hexec, hret⟩ : ∃ r o, exec (step {} deafVad) (init {} () true 0) chat = some r ∧
      r.status = .returned o := ⟨_, _, rfl, rfl⟩
  exact ⟨r, o, run_of_exec hexec, hret, transcript_turns (run_of_exec hexec) hret, by decide +kernel⟩

end DriverRun

end Kutsu
