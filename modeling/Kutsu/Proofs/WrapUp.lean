import Kutsu.Lib.Run
import Kutsu.Proofs.Parties

/-! The bridge's wrap-up. The phone's end is seen in two places, in either order; the
first of them ends the bridge, or leaves it a grace in which it only forwards. -/

namespace Kutsu

open Runs Pipes

/-- The events the bridge does not consume. -/
def Event.forwards : Event → Bool
  | .outputAudio _ | .interrupted => false
  | _ => true

namespace BridgeInput

def taken : BridgeInput → Option Event
  | .event _ ev => some ev
  | _ => none

/-- The phone is seen to be gone. -/
def seesGone : BridgeInput → Bool
  | .uplink | .phoneSend false => true
  | _ => false

end BridgeInput

def takenEvents (tr : List (ℕ × BridgeInput)) : List Event := tr.filterMap fun x => x.2.taken

def seenGone (tr : List (ℕ × BridgeInput)) : Option ℕ := (tr.find? fun x => x.2.seesGone).map (·.1)

theorem takenEvents_concat (tr : List (ℕ × BridgeInput)) (x : ℕ × BridgeInput) :
    takenEvents (tr ++ [x]) = takenEvents tr ++ x.2.taken.toList := by
  rw [takenEvents, List.filterMap_append, List.filterMap_cons, List.filterMap_nil]
  cases x.2.taken with
  | none => rfl
  | some ev => rfl

theorem seenGone_concat (tr : List (ℕ × BridgeInput)) (x : ℕ × BridgeInput) :
    seenGone (tr ++ [x]) = (seenGone tr).or (if x.2.seesGone then some x.1 else none) := by
  rw [seenGone, List.find?_append, List.find?_singleton, Option.map_or]
  split_ifs <;> rfl

namespace Bridge

variable {b : Bridge}

theorem onPhoneGone_some (ms now : ℕ) : (b.onPhoneGone (some ms) now).pc = b.pc ∧
    (b.onPhoneGone (some ms) now).harvesting = true ∧
    (b.harvesting = b.graceSleep.isSome →
      (b.onPhoneGone (some ms) now).graceSleep = b.graceSleep.or (some (now + ms))) := by
  unfold onPhoneGone
  dsimp only
  split_ifs with hh
  · refine ⟨rfl, hh, fun heq => ?_⟩
    obtain ⟨t, ht⟩ := Option.isSome_iff_exists.mp (heq ▸ hh)
    rw [ht]
    rfl
  · refine ⟨rfl, rfl, fun heq => ?_⟩
    rw [Bool.not_eq_true, heq, Option.isSome_eq_false_iff, Option.isNone_iff_eq_none] at hh
    rw [hh]
    rfl

/-- An event is passed on or consumed; only audio that is to be played is buffered. -/
theorem onEvent_spec (now : ℕ) (muted : Bool) (ev : Event) :
    (b.onEvent muted now ev).2 = [ev].filter Event.forwards ∧ (b.onEvent muted now ev).1.pc = b.pc ∧
      (b.onEvent muted now ev).1.harvesting = b.harvesting ∧
      (b.onEvent muted now ev).1.graceSleep = b.graceSleep := by
  cases ev with
  | outputAudio pcm =>
    unfold onEvent
    dsimp only
    split_ifs <;> exact ⟨rfl, rfl, rfl, rfl⟩
  | _ => exact ⟨rfl, rfl, rfl, rfl⟩

theorem ending_congr {b b' : Bridge} (h : b'.pc = b.pc) : b'.ending = b.ending := by rw [ending, ending, h]

theorem selects_congr {b b' : Bridge} (h : b'.pc = b.pc) : b'.selects = b.selects := by rw [selects, selects, h]

theorem pc_of_selects (h : b.selects = true) : b.pc = .select := by
  unfold selects at h
  split at h
  · assumption
  · cases h

end Bridge

namespace BridgeTask

variable {g : Option ℕ} {taps : List ℚ} {s s' : BridgeTask} {x : ℕ × BridgeInput} {tr : List (ℕ × BridgeInput)}

inductive Ends (s : BridgeTask) (now : ℕ) : BridgeInput → BridgeEnd → Prop where
  | cancel : Ends s now .cancel .cancelled
  | closed : Ends s now .closed .geminiClosed
  | grace {t : ℕ} (ht : s.bridge.graceSleep = some t) (hle : t ≤ now) : Ends s now .grace .phoneClosed

inductive Step (g : Option ℕ) (taps : List ℚ) (s : BridgeTask) (now : ℕ) : BridgeInput → BridgeTask → Prop where
  | uplinkDone (ht : s.uplinkTask = true) : Step g taps s now .uplinkDone { s with uplinkTask := false }
  | ends {i : BridgeInput} {how : BridgeEnd} (hs : s.selects = true) (hi : s.Ends now i how) :
      Step g taps s now i (s.become { s.bridge with pc := .ended how })
  | gone {i : BridgeInput} {b : Bridge} (hi : i.seesGone = true)
      (hs : s.selects = true ∨ s.bridge.pc matches .sending _)
      (hpc : b.pc = .select) (hh : b.harvesting = s.bridge.harvesting) (hg : b.graceSleep = s.bridge.graceSleep) :
      Step g taps s now i (s.become (b.onPhoneGone g now))
  | event (muted : Bool) (ev : Event) (hs : s.selects = true) : Step g taps s now (.event muted ev)
      { s with bridge := (s.bridge.onEvent muted now ev).1, waiting := (s.bridge.onEvent muted now ev).2 }
  | tick (hs : s.selects = true) (hh : s.bridge.harvesting = false) :
      Step g taps s now .tick { s with bridge := (s.bridge.onTick taps now).1 }
  | forwarded {ev : Event} {waiting : List Event} (hw : s.waiting = ev :: waiting) :
      Step g taps s now .forwarded { s with waiting, forwarded := s.forwarded ++ [ev] }
  | sent {frame : Frame} (hpc : s.bridge.pc = .sending frame) :
      Step g taps s now (.phoneSend true) { s with bridge := { s.bridge with pc := .select } }

theorem step_cases (h : s.step g taps x = some s') : Step g taps s x.1 x.2 s' := by
  unfold step at h
  split at h
  · split_ifs at h with ht
    obtain rfl := Option.some.inj h
    exact .uplinkDone ht
  · split_ifs at h with hs
    obtain rfl := Option.some.inj h
    exact .ends hs .cancel
  · split_ifs at h with hs
    obtain rfl := Option.some.inj h
    have hsel : s.selects = true := (Bool.and_eq_true_iff.mp (Bool.and_eq_true_iff.mp hs).1).1
    have hpc : s.bridge.pc = .select := Bridge.pc_of_selects (Bool.and_eq_true_iff.mp hsel).1
    exact .gone rfl (Or.inl hsel) hpc rfl rfl
  · split_ifs at h with hs
    obtain rfl := Option.some.inj h
    obtain ⟨hsel, hg⟩ := Bool.and_eq_true_iff.mp hs
    obtain ⟨t, ht, hle⟩ := (Option.any_eq_true _ _).mp hg
    exact .ends hsel (.grace ht (of_decide_eq_true hle))
  · split_ifs at h with hs
    obtain rfl := Option.some.inj h
    exact .event _ _ hs
  · split_ifs at h with hs
    obtain rfl := Option.some.inj h
    exact .ends hs .closed
  · split_ifs at h with hs
    obtain rfl := Option.some.inj h
    simp only [Bool.and_eq_true, Bool.not_eq_true'] at hs
    exact .tick hs.1.1 hs.1.2
  · split at h
    · obtain rfl := Option.some.inj h
      exact .forwarded ‹_›
    · cases h
  · rename_i ok
    split at h
    · obtain rfl := Option.some.inj h
      rename_i hpc
      cases ok with
      | true => exact .sent hpc
      | false => exact .gone rfl (Or.inr (by rw [hpc])) rfl rfl rfl
    · cases h

@[simp] theorem become_bridge (s : BridgeTask) (b : Bridge) : (s.become b).bridge = b := by
  unfold become
  split_ifs <;> rfl

@[simp] theorem become_waiting (s : BridgeTask) (b : Bridge) : (s.become b).waiting = s.waiting := by
  unfold become
  split_ifs <;> rfl

@[simp] theorem become_forwarded (s : BridgeTask) (b : Bridge) : (s.become b).forwarded = s.forwarded := by
  unfold become
  split_ifs <;> rfl

theorem become_keepalive (b : Bridge) (h : s.keepalive = true) :
    (s.become b).keepalive = (s.become b).bridge.ending.isNone := by
  rw [become_bridge]
  unfold become
  split_ifs with hb
  · obtain ⟨how, hhow⟩ := Option.isSome_iff_exists.mp hb
    rw [hhow]
    rfl
  · rw [Bool.not_eq_true, Option.isSome_eq_false_iff] at hb
    rw [hb]
    exact h

theorem ending_of_selects (h : s.selects = true) : s.bridge.ending = none ∧ s.waiting = [] := by
  obtain ⟨hb, hw⟩ := Bool.and_eq_true_iff.mp h
  refine ⟨?_, List.isEmpty_iff.mp hw⟩
  rw [Bridge.ending, Bridge.pc_of_selects hb]

structure Wrapped (g : Option ℕ) (tr : List (ℕ × BridgeInput)) (s : BridgeTask) : Prop where
  forwarded : s.forwarded ++ s.waiting = (takenEvents tr).filter Event.forwards
  idle : s.bridge.selects = false → s.waiting = []
  grace : s.bridge.graceSleep = g.bind fun ms => (seenGone tr).map (· + ms)
  harvesting : s.bridge.harvesting = s.bridge.graceSleep.isSome
  sending : s.bridge.harvesting = true → ∀ frame, s.bridge.pc ≠ .sending frame
  closed : g = none → (seenGone tr).isSome = true → s.bridge.ending = some .phoneClosed
  keepalive : s.keepalive = s.bridge.ending.isNone

theorem wrapped_init (cfg : QualityConfig) (now : ℕ) : Wrapped g [] (new cfg now) where
  forwarded := rfl
  idle _ := rfl
  grace := by cases g <;> rfl
  harvesting := rfl
  sending h := by cases h
  closed _ h := by cases h
  keepalive := rfl

theorem Wrapped.of_same (hw : Wrapped g tr s) (hx : x.2.seesGone = false)
    (hf : s'.forwarded ++ s'.waiting = (s.forwarded ++ s.waiting) ++ x.2.taken.toList.filter Event.forwards)
    (hidle : s'.bridge.selects = false → s'.waiting = []) (hg : s'.bridge.graceSleep = s.bridge.graceSleep)
    (hh : s'.bridge.harvesting = s.bridge.harvesting)
    (hsend : s'.bridge.harvesting = true → ∀ frame, s'.bridge.pc ≠ .sending frame)
    (hend : s.bridge.ending = some .phoneClosed → s'.bridge.ending = some .phoneClosed)
    (hk : s'.keepalive = s'.bridge.ending.isNone) : Wrapped g (tr ++ [x]) s' := by
  have hgone : seenGone (tr ++ [x]) = seenGone tr := by
    rw [seenGone_concat, hx, if_neg Bool.false_ne_true, Option.or_none]
  refine ⟨?_, hidle, ?_, ?_, hsend, ?_, hk⟩
  · rw [hf, takenEvents_concat, List.filter_append, hw.forwarded]
  · rw [hg, hgone, hw.grace]
  · rw [hh, hg, hw.harvesting]
  · rw [hgone]
    exact fun hnone hsome => hend (hw.closed hnone hsome)

theorem wrapped_step (hw : Wrapped g tr s) (h : s.step g taps x = some s') : Wrapped g (tr ++ [x]) s' := by
  obtain ⟨now, i⟩ := x
  have hstep := step_cases h
  dsimp only at hstep
  cases hstep with
  | uplinkDone ht =>
    exact hw.of_same rfl (by simp [BridgeInput.taken]) hw.idle rfl rfl hw.sending (fun h => h) hw.keepalive
  | @ends i how hs hi =>
    obtain ⟨hend, hwait⟩ := ending_of_selects hs
    have hkeep : s.keepalive = true := by rw [hw.keepalive, hend]; rfl
    have hi' : i.seesGone = false ∧ i.taken = none := by cases hi <;> exact ⟨rfl, rfl⟩
    refine hw.of_same hi'.1 ?_ ?_ ?_ ?_ ?_ ?_ ?_
    · simp [hi'.2]
    · simp [hwait]
    · simp
    · simp
    · simp
    · simp [hend]
    · exact become_keepalive _ hkeep
  | @gone i b hi hs hpc hh hg =>
    have hbusy : s.bridge.ending = none ∧ s.waiting = [] := by
      rcases hs with hs | hs
      · exact ending_of_selects hs
      · split at hs
        · rename_i frame hsending
          exact ⟨by rw [Bridge.ending, hsending], hw.idle (by rw [Bridge.selects, hsending])⟩
        · cases hs
    have hkeep : s.keepalive = true := by rw [hw.keepalive, hbusy.1]; rfl
    have htaken : takenEvents (tr ++ [(now, i)]) = takenEvents tr := by
      have hno : i.taken = none := by cases i <;> first | rfl | cases hi
      rw [takenEvents_concat, hno, Option.toList_none, List.append_nil]
    have hgone : seenGone (tr ++ [(now, i)]) = (seenGone tr).or (some now) := by
      rw [seenGone_concat, if_pos hi]
    have hsent : (s.become (b.onPhoneGone g now)).forwarded ++ (s.become (b.onPhoneGone g now)).waiting =
        (takenEvents (tr ++ [(now, i)])).filter Event.forwards := by
      rw [become_forwarded, become_waiting, htaken, hw.forwarded]
    cases g with
    | none =>
      have hno : b.graceSleep = none := by rw [hg, hw.grace]; rfl
      refine ⟨hsent, fun _ => by rw [become_waiting, hbusy.2], ?_, ?_, ?_, ?_, become_keepalive _ hkeep⟩
      · rw [become_bridge]
        exact hno
      · rw [become_bridge]
        exact hh.trans (hw.harvesting.trans (congrArg _ hg.symm))
      · rw [become_bridge]
        exact fun _ frame hp => by cases hp
      · rw [become_bridge]
        exact fun _ _ => rfl
    | some ms =>
      obtain ⟨hpc', hharv, hgrace⟩ := b.onPhoneGone_some ms now
      have hgrace' := hgrace (by rw [hh, hg, hw.harvesting])
      refine ⟨hsent, fun _ => by rw [become_waiting, hbusy.2], ?_, ?_, ?_, (fun h => by cases h),
        become_keepalive _ hkeep⟩
      · rw [become_bridge, hgrace', hg, hw.grace, hgone]
        cases seenGone tr <;> rfl
      · rw [become_bridge, hgrace', hharv, Option.isSome_or]
        simp
      · rw [become_bridge, hpc', hpc]
        exact fun _ frame hp => by cases hp
  | event muted ev hs =>
    obtain ⟨hend, hwait⟩ := ending_of_selects hs
    obtain ⟨hfw, hpc, hh, hg⟩ := s.bridge.onEvent_spec now muted ev
    refine hw.of_same rfl ?_ (fun hsel => ?_) hg hh ?_ ?_ ?_
    · simp [hwait, hfw, BridgeInput.taken]
    · rw [Bridge.selects_congr hpc, (Bool.and_eq_true_iff.mp hs).1] at hsel
      cases hsel
    · rw [hpc, hh]
      exact hw.sending
    · rw [Bridge.ending_congr hpc]
      exact fun h => h
    · rw [Bridge.ending_congr hpc]
      exact hw.keepalive
  | tick hs hh =>
    obtain ⟨hend, hwait⟩ := ending_of_selects hs
    refine hw.of_same rfl (by simp [BridgeInput.taken]) (fun _ => hwait) rfl rfl ?_ ?_ ?_
    · intro hharv
      rw [show s.bridge.harvesting = true from hharv] at hh
      cases hh
    · rw [hend]
      exact fun h => by cases h
    · rw [show s.keepalive = _ from hw.keepalive, hend]
      rfl
  | @forwarded ev waiting hwait =>
    refine hw.of_same rfl ?_ ?_ rfl rfl hw.sending (fun h => h) hw.keepalive
    · simp [hwait, BridgeInput.taken]
    · intro hsel
      have := hw.idle hsel
      rw [hwait] at this
      cases this
  | sent hpc =>
    have hend : s.bridge.ending = none := by rw [Bridge.ending, hpc]
    refine hw.of_same rfl (by simp [BridgeInput.taken]) (fun hsel => by cases hsel) rfl rfl ?_ ?_ ?_
    · exact fun _ frame hp => by cases hp
    · rw [hend]
      exact fun h => by cases h
    · rw [show s.keepalive = _ from hw.keepalive, hend]
      rfl

theorem wrapped_run {cfg : QualityConfig} {now : ℕ} (h : Run (step g taps) Always (new cfg now) tr s) :
    Wrapped g tr s :=
  h.trace_invariant (wrapped_init cfg now) fun _ _ _ _ hw _ hs => wrapped_step hw hs

/-- The phone is left alone: no frame is made or sent, and no audio is buffered. -/
structure Silent (g : Option ℕ) (taps : List ℚ) (s : BridgeTask) : Prop where
  tick : ∀ now, s.step g taps (now, .tick) = none
  phoneSend : ∀ now ok, s.step g taps (now, .phoneSend ok) = none
  audio : ∀ now muted pcm s', s.step g taps (now, .event muted (.outputAudio pcm)) = some s' →
    s'.bridge.downlink = s.bridge.downlink

/-- What holds of the bridge after any run, given the grace it was started with. -/
structure WrapUp (g : Option ℕ) (taps : List ℚ) (tr : List (ℕ × BridgeInput)) (s : BridgeTask) : Prop where
  forwarded : s.forwarded ++ s.waiting = (takenEvents tr).filter Event.forwards
  drained : s.bridge.ending.isSome = true → s.waiting = []
  silent : (seenGone tr).isSome = true → s.Silent g taps
  /-- without a grace the bridge has ended by then -/
  closed : g = none → (seenGone tr).isSome = true → s.bridge.ending = some .phoneClosed
  /-- with one its timer was armed at the first sight, and has not been touched since -/
  timer : s.bridge.graceSleep = g.bind fun ms => (seenGone tr).map (· + ms)
  geminiIn : s.bridge.ending = none → s.geminiInOpen = true
  /-- and ends it, unless Gemini closes or a cancel comes first -/
  ends : g.isSome = true → (seenGone tr).isSome = true → s.bridge.ending = none → ∀ x s' how,
    s.step g taps x = some s' → s'.bridge.ending = some how → s.Ends x.1 x.2 how
  expiry : s.selects = true → ∀ t, s.bridge.graceSleep = some t → ∀ now, t ≤ now →
    ∃ s', s.step g taps (now, .grace) = some s' ∧ s'.bridge.ending = some .phoneClosed

/-- Once the phone is seen gone the bridge is in its grace, or has ended. -/
theorem Wrapped.harvests (hw : Wrapped g tr s) (hgone : (seenGone tr).isSome = true) :
    s.bridge.harvesting = true ∨ s.bridge.ending = some .phoneClosed := by
  cases g with
  | none => exact Or.inr (hw.closed rfl hgone)
  | some ms =>
    rw [hw.harvesting, hw.grace, Option.bind_some, Option.isSome_map]
    exact Or.inl hgone

theorem Wrapped.silent (hw : Wrapped g tr s) (hgone : (seenGone tr).isSome = true) : s.Silent g taps where
  tick now := by
    cases h : s.step g taps (now, .tick) with
    | none => rfl
    | some s' =>
      cases step_cases h with
      | ends hs hi => cases hi
      | gone hi => cases hi
      | tick hs hh =>
        rcases hw.harvests hgone with hharv | hend
        · rw [hharv] at hh
          cases hh
        · rw [(ending_of_selects hs).1] at hend
          cases hend
  phoneSend now ok := by
    have hpc : ∀ frame, s.bridge.pc ≠ .sending frame := by
      rcases hw.harvests hgone with hharv | hend
      · exact hw.sending hharv
      · intro frame hpc
        rw [Bridge.ending, hpc] at hend
        cases hend
    unfold step
    cases h : s.bridge.pc with
    | sending frame => exact absurd h (hpc frame)
    | _ => rfl
  audio now muted pcm s' h := by
    cases step_cases h with
    | ends hs hi => cases hi
    | gone hi => cases hi
    | event muted ev hs =>
      rcases hw.harvests hgone with hharv | hend
      · simp only [Bridge.onEvent, hharv, Bool.true_or, if_true]
      · rw [(ending_of_selects hs).1] at hend
        cases hend

theorem ends_of_grace {ms now : ℕ} {i : BridgeInput} {how : BridgeEnd} (hend : s.bridge.ending = none)
    (h : Step (some ms) taps s now i s') (hend' : s'.bridge.ending = some how) : s.Ends now i how := by
  have hsame : s'.bridge.pc = s.bridge.pc ∨ s'.bridge.pc = .select ∨ (∃ frame, s'.bridge.pc = .sending frame) →
      False := by
    rintro (hpc | hpc | ⟨frame, hpc⟩)
    · rw [Bridge.ending_congr hpc, hend] at hend'
      cases hend'
    · rw [Bridge.ending, hpc] at hend'
      cases hend'
    · rw [Bridge.ending, hpc] at hend'
      cases hend'
  cases h with
  | ends hs hi =>
    rw [become_bridge] at hend'
    obtain rfl := Option.some.inj hend'
    exact hi
  | uplinkDone | forwarded => exact (hsame (Or.inl rfl)).elim
  | gone hi hs hpc hh hg =>
    refine (hsame (Or.inr (Or.inl ?_))).elim
    rw [become_bridge, (Bridge.onPhoneGone_some ms now).1, hpc]
  | event muted ev hs => exact (hsame (Or.inl (s.bridge.onEvent_spec now muted ev).2.1)).elim
  | tick hs hh => exact (hsame (Or.inr (Or.inr ⟨_, rfl⟩))).elim
  | sent hpc => exact (hsame (Or.inr (Or.inl rfl))).elim

/-- The wrap-up protocol of the bridge, whatever it meets and in whatever order. -/
theorem wrap_up {cfg : QualityConfig} {now : ℕ} (h : Run (step g taps) Always (new cfg now) tr s) :
    s.WrapUp g taps tr := by
  have hw := wrapped_run h
  refine ⟨hw.forwarded, fun hend => hw.idle ?_, hw.silent, hw.closed, hw.grace, fun hend => ?_, ?_, ?_⟩
  · cases hsel : s.bridge.selects with
    | false => rfl
    | true =>
      rw [Bridge.ending, Bridge.pc_of_selects hsel] at hend
      cases hend
  · rw [geminiInOpen, hw.keepalive, hend, Option.isNone_none, Bool.or_true]
  · intro hg _ hend x s' how hs hend'
    obtain ⟨ms, rfl⟩ := Option.isSome_iff_exists.mp hg
    exact ends_of_grace hend (step_cases hs) hend'
  · intro hsel t ht now hle
    refine ⟨s.become { s.bridge with pc := .ended .phoneClosed }, ?_, ?_⟩
    · rw [step, hsel, ht, Option.any_some, decide_eq_true hle]
      rfl
    · rw [become_bridge]
      rfl

/-- The frame of a tick finds the phone gone, the model still submits its result, and the
uplink task ends as well. -/
def lateEndCall : List (ℕ × BridgeInput) :=
  [(0, .tick), (0, .phoneSend false), (900, .event false (.endCall .null)), (900, .forwarded), (1000, .uplinkDone),
    (1000, .uplink), (1100, .event true (.outputAudio [7])), (15000, .grace)]

theorem wrap_up_lateEndCall : ∃ s, exec (step (some 15000) []) (new {} 0) lateEndCall = some s ∧
    s.bridge.ending = some .phoneClosed ∧ s.forwarded.length = 1 ∧ s.WrapUp (some 15000) [] lateEndCall := by
  obtain ⟨s, hs, hend, hlen⟩ : ∃ s, exec (step (some 15000) []) (new {} 0) lateEndCall = some s ∧
    s.bridge.ending = some .phoneClosed ∧ s.forwarded.length = 1 := ⟨_, rfl, rfl, rfl⟩
  exact ⟨s, hs, hend, hlen, wrap_up (run_of_exec hs)⟩

end BridgeTask

namespace Talk

variable {V : Type} {su : Setup V} {s s' : Talk V} {act : TalkAct} {b b' : Bridge}

def bridgeTask (s : Talk V) (b : Bridge) : BridgeTask where
  bridge := b
  waiting := s.eventsOut.waiting
  forwarded := s.eventsOut.read ++ s.eventsOut.queued
  uplinkTask := !s.uplinkEnded && b.ending.isNone
  keepalive := b.ending.isNone

inductive BridgeStep (su : Setup V) (s s' : Talk V) (b b' : Bridge) : Prop where
  | same (h : s'.bridgeTask b' = s.bridgeTask b) : BridgeStep su s s' b b'
  | step (input : BridgeInput) (h : (s.bridgeTask b).step (harvestGraceMs su.cfg) su.taps (s.sh.clock, input) =
      some (s'.bridgeTask b')) : BridgeStep su s s' b b'

theorem bridgeTask_become (hb : b.ending = none) (h : s'.eventsOut = s.eventsOut)
    (hup : s'.uplinkEnded = s.uplinkEnded) :
    (s.bridgeTask b).become b' = s'.bridgeTask b' := by
  unfold BridgeTask.become bridgeTask
  split_ifs with hend
  · obtain ⟨how, hhow⟩ := Option.isSome_iff_exists.mp hend
    simp [h, hhow]
  · rw [Bool.not_eq_true, Option.isSome_eq_false_iff] at hend
    simp [h, hup, hend, hb]

theorem bridge_arm {arm : BridgeArm} (hsel : b.selects = true) (hfree : s.eventsOut.waiting = [])
    (h : Arm su s b arm s') : ∃ b', s'.bridge = some b' ∧ BridgeStep su s s' b b' := by
  have hselects : (s.bridgeTask b).selects = true := Bool.and_eq_true_iff.mpr ⟨hsel, List.isEmpty_iff.mpr hfree⟩
  have hend : b.ending = none := (BridgeTask.ending_of_selects hselects).1
  cases h with
  | cancel =>
    refine ⟨_, rfl, .step .cancel ?_⟩
    rw [BridgeTask.step, if_pos hselects]
    exact congrArg some (bridgeTask_become hend rfl rfl)
  | uplink hup hruns =>
    have hready : ((s.bridgeTask b).selects && !(s.bridgeTask b).uplinkTask && (s.bridgeTask b).bridge.uplinkRunning) =
        true := by
      rw [hselects]
      simp [bridgeTask, hup, hruns]
    refine ⟨_, rfl, .step .uplink ?_⟩
    rw [BridgeTask.step, if_pos hready]
    exact congrArg some (bridgeTask_become hend rfl rfl)
  | grace hsleep hpast =>
    have hready : ((s.bridgeTask b).selects && (s.bridgeTask b).bridge.graceSleep.any fun t => t ≤ s.sh.clock) =
        true := Bool.and_eq_true_iff.mpr ⟨hselects, (Option.any_eq_true _ _).mpr ⟨_, hsleep, decide_eq_true hpast⟩⟩
    refine ⟨_, rfl, .step .grace ?_⟩
    rw [BridgeTask.step, if_pos hready]
    exact congrArg some (bridgeTask_become hend rfl rfl)
  | @event ev rest hrecv =>
    obtain ⟨-, hpc, -, -⟩ := b.onEvent_spec s.sh.clock s.attempt.phase.muted ev
    refine ⟨_, rfl, .step (.event s.attempt.phase.muted ev) ?_⟩
    rw [BridgeTask.step, if_pos hselects]
    simp [bridgeTask, Pipe.offer, hfree, Bridge.ending_congr hpc]
  | closed =>
    refine ⟨_, rfl, .step .closed ?_⟩
    rw [BridgeTask.step, if_pos hselects]
    exact congrArg some (bridgeTask_become hend rfl rfl)
  | tick hpaces hdue =>
    have hready : ((s.bridgeTask b).selects && !(s.bridgeTask b).bridge.harvesting &&
        (s.bridgeTask b).bridge.nextTick ≤ s.sh.clock) = true := by
      rw [hselects]
      simp [bridgeTask, hpaces, hdue]
    have hend' : (b.onTick su.taps s.sh.clock).1.ending = none := rfl
    refine ⟨_, rfl, .step .tick ?_⟩
    rw [BridgeTask.step, if_pos hready]
    simp [bridgeTask, hend, hend']

theorem afterArm_spec (s : Talk V) (arm : EngineArm) : (s.afterArm arm).waiting = s.eventsOut.waiting ∧
    (s.afterArm arm).read ++ (s.afterArm arm).queued = s.eventsOut.read ++ s.eventsOut.queued := by
  cases arm with
  | event =>
    unfold afterArm
    cases hr : s.eventsOut.recv with
    | none => exact ⟨rfl, rfl⟩
    | some r =>
      obtain ⟨-, hread, hw, hq⟩ := Pipe.recv_spec hr
      refine ⟨hw, ?_⟩
      simp only [Option.map_some, Option.getD_some, hread, hq, List.append_assoc, List.singleton_append]
  | _ => exact ⟨rfl, rfl⟩

theorem bridge_engine {arm : EngineArm} (hb : s.bridge = some b) (h : s.engineStep su arm = some s') :
    ∃ b', s'.bridge = some b' ∧ BridgeStep su s s' b b' := by
  obtain ⟨input, phase, eff, -, -, -, rfl⟩ := engine_cases h
  refine ⟨b, by rw [hb], .same ?_⟩
  obtain ⟨hwait, hsent⟩ := s.afterArm_spec arm
  simp only [bridgeTask, hwait, hsent]

theorem bridge_step (hb : s.bridge = some b) (h : s.step su act = some s') :
    ∃ b', s'.bridge = some b' ∧ BridgeStep su s s' b b' := by
  cases step_cases h with
  | uplink =>
    cases hrun : (s.bridgeTask b).uplinkTask with
    | true =>
      refine ⟨b, hb, .step .uplinkDone ?_⟩
      rw [BridgeTask.step, if_pos hrun]
      rfl
    | false =>
      refine ⟨b, hb, .same ?_⟩
      have hoff : (!s.uplinkEnded && b.ending.isNone) = false := hrun
      simp only [bridgeTask, hoff, Bool.not_true, Bool.false_and]
  | bridge hb' hsel hfree harm =>
    obtain rfl := Option.some.inj (hb.symm.trans hb')
    exact bridge_arm hsel hfree harm
  | bridgeSend hp =>
    obtain ⟨-, hread, ev, hw, hq⟩ := Pipe.accept_spec hp
    refine ⟨b, hb, .step .forwarded ?_⟩
    simp [BridgeTask.step, bridgeTask, hw, hread, hq]
  | phoneSend hb' hpc =>
    obtain rfl := Option.some.inj (hb.symm.trans hb')
    have hend : b.ending = none := by rw [Bridge.ending, hpc]
    refine ⟨_, rfl, .step (.phoneSend true) ?_⟩
    simp only [BridgeTask.step, bridgeTask, hpc, if_true, Bridge.ending]
  | phoneLost hb' hpc =>
    obtain rfl := Option.some.inj (hb.symm.trans hb')
    have hend : b.ending = none := by rw [Bridge.ending, hpc]
    refine ⟨_, rfl, .step (.phoneSend false) ?_⟩
    simp only [BridgeTask.step, bridgeTask, hpc, Bool.false_eq_true, if_false]
    exact congrArg some (bridgeTask_become hend rfl rfl)
  | engine h => exact bridge_engine hb h
  | _ => exact ⟨b, hb, .same rfl⟩

/-- What the bridge of a talk does in any run is a run of its own. -/
theorem bridge_run {ok : Talk V → TalkAct → Prop} {tr : List TalkAct} (hb : s.bridge = some b)
    (h : Run (step su) ok s tr s') : ∃ b' tr', s'.bridge = some b' ∧
      Run (BridgeTask.step (harvestGraceMs su.cfg) su.taps) Always (s.bridgeTask b) tr' (s'.bridgeTask b') := by
  induction h with
  | nil => exact ⟨b, [], hb, .nil⟩
  | snoc _ _ hs ih =>
    obtain ⟨b₁, tr', hb₁, hrun⟩ := ih
    obtain ⟨b', hb', hstep⟩ := bridge_step hb₁ hs
    cases hstep with
    | same heq => exact ⟨b', tr', hb', heq ▸ hrun⟩
    | step input hinput => exact ⟨b', _, hb', hrun.snoc trivial hinput⟩

end Talk

end Kutsu
