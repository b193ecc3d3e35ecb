import Kutsu.Proofs.Fade

/-! When the pacer plays and when it holds, told by the record of what it did. The record has the latest entry
first. -/

namespace Kutsu

inductive Mark where
  | push
  | frame (silent : Bool)
  | clear
  | fade (left : Bool)
  | set (expecting : Bool)
  deriving DecidableEq

namespace Mark

def expecting : List Mark → Bool
  | [] => false
  | .set e :: _ => e
  | _ :: log => expecting log

/-- A rising edge of `set_expecting` after this record. -/
def rises (e : Bool) (log : List Mark) : Bool := e && !expecting log

/-- Playout is under way: the latest of a frame, a clear, a fade and a rising edge is a frame that was not
silence, or a fade that left audio. -/
def underWay : List Mark → Bool
  | [] => false
  | .push :: log => underWay log
  | .frame silent :: _ => !silent
  | .clear :: _ => false
  | .fade left :: _ => left
  | .set e :: log => !rises e log && underWay log

/-- The resume target after an underrun, which is silence while playout is under way, the prebuffer after
anything else that sets the target. -/
def target (prebuffer resume : ℕ) : List Mark → ℕ
  | [] => prebuffer
  | .push :: log => target prebuffer resume log
  | .frame silent :: log => if silent && underWay log then resume else target prebuffer resume log
  | .clear :: _ => prebuffer
  | .fade _ :: _ => prebuffer
  | .set e :: log => if rises e log then prebuffer else target prebuffer resume log

def sounding : List Mark → Bool
  | [] => false
  | .frame silent :: _ => !silent
  | _ :: log => sounding log

/-- Since the frame before there was an interruption that left audio. -/
def fadedSince : List Mark → Bool
  | [] => false
  | .frame _ :: _ => false
  | .fade left :: log => left || fadedSince log
  | _ :: log => fadedSince log

def starvedFrames : List Mark → ℕ
  | [] => 0
  | .frame true :: log => starvedFrames log + (expecting log).toNat
  | _ :: log => starvedFrames log

/-- The next frame, if it is silence, is an underrun that is counted. -/
def counts (log : List Mark) : Bool := underWay log && expecting log

def counted : List Mark → ℕ
  | [] => 0
  | .frame true :: log => counted log + (counts log).toNat
  | _ :: log => counted log

theorem sounding_or_fadedSince {log : List Mark} (h : underWay log = true) :
    sounding log = true ∨ fadedSince log = true := by
  fun_induction underWay log with
  | case1 => cases h
  | case2 log ih => exact ih h
  | case3 silent log => exact Or.inl h
  | case4 => cases h
  | case5 left log => exact Or.inr (by rw [fadedSince, h, Bool.true_or])
  | case6 e log ih => exact ih (Bool.and_eq_true_iff.mp h).2

theorem counted_le (log : List Mark) : counted log ≤ starvedFrames log := by
  fun_induction counted log with
  | case1 => exact le_rfl
  | case2 log ih =>
    rw [starvedFrames]
    refine Nat.add_le_add ih ?_
    rw [counts]
    cases underWay log <;> cases expecting log <;> decide
  | case3 m log hm ih =>
    rw [starvedFrames.eq_3 _ _ hm]
    exact ih

/-- Once a frame was silence, playout is under way again only after a frame that was not or an interruption that
left audio. -/
theorem restarted {mid old : List Mark} (h : underWay (mid ++ .frame true :: old) = true) :
    .frame false ∈ mid ∨ .fade true ∈ mid := by
  induction mid with
  | nil => cases h
  | cons m mid ih =>
    have hmem : underWay (mid ++ .frame true :: old) = true →
        .frame false ∈ m :: mid ∨ .fade true ∈ m :: mid := fun hmid =>
      (ih hmid).imp (List.mem_cons_of_mem m) (List.mem_cons_of_mem m)
    cases m with
    | push => exact hmem h
    | frame silent =>
      cases silent with
      | false => exact Or.inl List.mem_cons_self
      | true => cases h
    | clear => cases h
    | fade left =>
      cases left with
      | false => cases h
      | true => exact Or.inr List.mem_cons_self
    | set e => exact hmem (Bool.and_eq_true_iff.mp h).2

end Mark

open Mark

/-- The downlink with the record of what it did. -/
structure Prefill where
  d : Downlink
  log : List Mark := []

namespace Prefill

def new (prebufferMs resumeMs : ℕ) : Prefill := { d := Downlink.new prebufferMs resumeMs }

def Silent (h : List ℚ) (d : Downlink) : Prop := (d.nextFrame h).2.buf.length = d.buf.length

instance (h : List ℚ) (d : Downlink) : Decidable (Silent h d) := inferInstanceAs (Decidable (_ = _))

def mark (h : List ℚ) (d : Downlink) : PaceOp → Mark
  | .push _ => .push
  | .nextFrame => .frame (Silent h d)
  | .clear => .clear
  | .interruptFade fadeMs => .fade (d.interruptFade fadeMs).pending
  | .setExpecting expecting => .set expecting

def apply (h : List ℚ) (s : Prefill) (op : PaceOp) : Prefill :=
  { d := op.apply h s.d, log := mark h s.d op :: s.log }

/-- The mode, the target and the counters are those that the record tells. -/
structure Told (p r : ℕ) (d : Downlink) (log : List Mark) : Prop where
  prebuffer : d.prebuffer = p
  resume : d.resume = r
  expecting : d.expecting = expecting log
  playing : d.playing = underWay log
  target : d.fillTarget = target p r log
  starved : d.starvedMs = 20 * starvedFrames log
  underruns : d.underruns = counted log

variable {h : List ℚ} {d : Downlink} {log : List Mark} {p r : ℕ}

theorem told_new (prebufferMs resumeMs : ℕ) :
    Told (prebufferMs * SAMPLES_PER_MS) (resumeMs * SAMPLES_PER_MS) (Downlink.new prebufferMs resumeMs) [] :=
  ⟨rfl, rfl, rfl, rfl, rfl, rfl, rfl⟩

theorem not_silent_iff : ¬ Silent h d ↔ d.Ready ∧ IN_PER_FRAME ≤ d.buf.length := by
  by_cases hplay : d.Ready ∧ IN_PER_FRAME ≤ d.buf.length
  · obtain ⟨hr, hlen⟩ := hplay
    have hpos : 0 < IN_PER_FRAME := by decide
    rw [Silent, Downlink.nextFrame_play hr hlen, List.length_drop]
    exact iff_of_true (by omega) ⟨hr, hlen⟩
  · refine iff_of_false (not_not_intro ?_) hplay
    by_cases hr : d.Ready
    · have hshort : d.buf.length < IN_PER_FRAME := Nat.lt_of_not_le fun hlen => hplay ⟨hr, hlen⟩
      have hp : d.playing = true := hr.resolve_right fun hfill =>
        Nat.not_le.mpr hshort ((le_max_right _ _).trans hfill)
      rw [Silent, Downlink.nextFrame_dry hp hshort]
      exact congrArg List.length (Pacer.silenceFrame_feeds h _).1
    · rw [Silent, Downlink.nextFrame_hold hr]
      exact congrArg List.length (Pacer.silenceFrame_feeds h _).1

theorem Told.interruptFade (ht : Told p r d log) (fadeMs : ℕ) :
    Told p r (d.interruptFade fadeMs) (.fade (d.interruptFade fadeMs).pending :: log) := by
  have hpending : (d.interruptFade fadeMs).pending = true ↔ min (fadeMs * SAMPLES_PER_MS) d.buf.length ≠ 0 := by
    rw [← Bool.not_eq_false, not_congr Downlink.pending_eq_false, ← Pacer.length_interruptFade,
      ne_eq, List.length_eq_zero_iff]
  have hmode : (d.interruptFade fadeMs).playing = (d.interruptFade fadeMs).pending := by
    rw [Bool.eq_iff_iff, hpending]
    unfold Downlink.interruptFade
    dsimp only
    split_ifs with hnone
    · exact iff_of_false Bool.false_ne_true (not_not_intro hnone)
    · exact iff_of_true rfl hnone
  have hrest : (d.interruptFade fadeMs).prebuffer = d.prebuffer ∧ (d.interruptFade fadeMs).resume = d.resume ∧
      (d.interruptFade fadeMs).expecting = d.expecting ∧ (d.interruptFade fadeMs).fillTarget = d.prebuffer ∧
      (d.interruptFade fadeMs).starvedMs = d.starvedMs ∧ (d.interruptFade fadeMs).underruns = d.underruns := by
    unfold Downlink.interruptFade
    dsimp only
    split_ifs <;> exact ⟨rfl, rfl, rfl, rfl, rfl, rfl⟩
  obtain ⟨hpre, hres, hexp, htar, hstarved, hunder⟩ := hrest
  exact ⟨hpre.trans ht.prebuffer, hres.trans ht.resume, hexp.trans ht.expecting, hmode,
    htar.trans ht.prebuffer, hstarved.trans ht.starved, hunder.trans ht.underruns⟩

theorem Told.setExpecting (ht : Told p r d log) (e : Bool) : Told p r (d.setExpecting e) (.set e :: log) := by
  have hrises : rises e log = (e && !d.expecting) := by rw [rises, ht.expecting]
  unfold Downlink.setExpecting
  split_ifs with hrise
  · refine ⟨ht.prebuffer, ht.resume, rfl, ?_, ?_, ht.starved, ht.underruns⟩
    · rw [underWay, hrises, hrise]
      rfl
    · rw [Mark.target, hrises, if_pos hrise]
      exact ht.prebuffer
  · rw [Bool.not_eq_true] at hrise
    refine ⟨ht.prebuffer, ht.resume, rfl, ?_, ?_, ht.starved, ht.underruns⟩
    · rw [underWay, hrises, hrise]
      exact ht.playing
    · rw [Mark.target, hrises, hrise]
      exact ht.target

theorem Told.nextFrame (ht : Told p r d log) : Told p r (d.nextFrame h).2 (.frame (Silent h d) :: log) := by
  by_cases hplay : d.Ready ∧ IN_PER_FRAME ≤ d.buf.length
  · rw [decide_eq_false (not_silent_iff.mpr hplay), Downlink.nextFrame_play hplay.1 hplay.2]
    exact ⟨ht.prebuffer, ht.resume, ht.expecting, rfl, ht.target, ht.starved, ht.underruns⟩
  · have hsilent : Silent h d := not_not.mp (mt not_silent_iff.mp hplay)
    have hstarved : (if d.expecting then d.starvedMs + 20 else d.starvedMs) =
        20 * (starvedFrames log + (Mark.expecting log).toNat) := by
      rw [ht.starved, ht.expecting]
      cases Mark.expecting log <;> rfl
    rw [decide_eq_true hsilent]
    by_cases hr : d.Ready
    · have hshort : d.buf.length < IN_PER_FRAME := Nat.lt_of_not_le fun hlen => hplay ⟨hr, hlen⟩
      have hp : d.playing = true := hr.resolve_right fun hfill =>
        Nat.not_le.mpr hshort ((le_max_right _ _).trans hfill)
      have hway : underWay log = true := ht.playing.symm.trans hp
      rw [Downlink.nextFrame_dry hp hshort]
      simp only [Downlink.silenceFrame]
      refine ⟨ht.prebuffer, ht.resume, ht.expecting, rfl, ?_, hstarved, ?_⟩
      · rw [Mark.target, hway]
        exact ht.resume
      · rw [counted, counts, hway, ht.underruns, ht.expecting]
        cases Mark.expecting log <;> rfl
    · have hway : underWay log = false := by
        rw [← ht.playing, ← Bool.not_eq_true]
        exact fun hp => hr (Or.inl hp)
      rw [Downlink.nextFrame_hold hr]
      simp only [Downlink.silenceFrame]
      refine ⟨ht.prebuffer, ht.resume, ht.expecting, ht.playing.trans hway, ?_, hstarved, ?_⟩
      · rw [Mark.target, hway]
        exact ht.target
      · rw [counted, counts, hway]
        exact ht.underruns

theorem Told.apply (ht : Told p r d log) (op : PaceOp) :
    Told p r (op.apply h d) (mark h d op :: log) := by
  cases op with
  | push samples => exact ⟨ht.prebuffer, ht.resume, ht.expecting, ht.playing, ht.target, ht.starved, ht.underruns⟩
  | nextFrame => exact ht.nextFrame
  | clear => exact ⟨ht.prebuffer, ht.resume, ht.expecting, rfl, ht.prebuffer, ht.starved, ht.underruns⟩
  | interruptFade fadeMs => exact ht.interruptFade fadeMs
  | setExpecting e => exact ht.setExpecting e

theorem foldl_d (h : List ℚ) (s : Prefill) (ops : List PaceOp) :
    (ops.foldl (apply h) s).d = ops.foldl (PaceOp.apply h) s.d := by
  induction ops generalizing s with
  | nil => rfl
  | cons op ops ih => exact ih _

theorem told_foldl (h : List ℚ) (prebufferMs resumeMs : ℕ) (ops : List PaceOp) :
    Told (prebufferMs * SAMPLES_PER_MS) (resumeMs * SAMPLES_PER_MS)
      (ops.foldl (apply h) (new prebufferMs resumeMs)).d (ops.foldl (apply h) (new prebufferMs resumeMs)).log :=
  List.foldlRecOn (motive := fun s : Prefill => Told _ _ s.d s.log) ops (apply h) (told_new prebufferMs resumeMs)
    fun _ ht op _ => ht.apply op

theorem Told.not_silent_iff (ht : Told p r d log) :
    ¬ Silent h d ↔ (underWay log = true ∨ max (Mark.target p r log) IN_PER_FRAME ≤ d.buf.length) ∧
      IN_PER_FRAME ≤ d.buf.length := by
  rw [Prefill.not_silent_iff, Downlink.Ready, ht.playing, ht.target]

theorem Told.starts (ht : Told p r d log) (hplay : ¬ Silent h d) (hquiet : sounding log = false) :
    (underWay log = true ∧ fadedSince log = true) ∨ max (Mark.target p r log) IN_PER_FRAME ≤ d.buf.length := by
  refine (ht.not_silent_iff.mp hplay).1.imp_left fun hway => ⟨hway, ?_⟩
  exact (sounding_or_fadedSince hway).resolve_left (Bool.eq_false_iff.mp hquiet)

/-- In any use of the pacer a frame plays exactly when playout is under way or the target is met, so that a run of
frames that are not silence starts at a fade that left audio or at the target. The counters are those of the
record, and of two underruns that are counted the later one follows a frame or a fade in between. -/
theorem prefill_hysteresis (h : List ℚ) (prebufferMs resumeMs : ℕ) (ops : List PaceOp) :
    let s := ops.foldl (apply h) (new prebufferMs resumeMs)
    let fill := max (Mark.target (prebufferMs * SAMPLES_PER_MS) (resumeMs * SAMPLES_PER_MS) s.log) IN_PER_FRAME
    s.d = ops.foldl (PaceOp.apply h) (Downlink.new prebufferMs resumeMs) ∧
      (¬ Silent h s.d ↔ (underWay s.log = true ∨ fill ≤ s.d.buf.length) ∧ IN_PER_FRAME ≤ s.d.buf.length) ∧
      (¬ Silent h s.d → sounding s.log = false →
        (underWay s.log = true ∧ fadedSince s.log = true) ∨ fill ≤ s.d.buf.length) ∧
      s.d.starvedMs = 20 * starvedFrames s.log ∧ s.d.underruns = counted s.log ∧
      s.d.underruns ≤ s.d.starvedMs / 20 ∧
      ∀ new mid old, s.log = new ++ .frame true :: (mid ++ .frame true :: old) →
        counts (mid ++ .frame true :: old) = true → counts old = true → .frame false ∈ mid ∨ .fade true ∈ mid := by
  intro s fill
  have ht := told_foldl h prebufferMs resumeMs ops
  refine ⟨foldl_d h _ ops, ht.not_silent_iff, ht.starts, ht.starved, ht.underruns, ?_, ?_⟩
  · rw [ht.starved, ht.underruns, Nat.mul_div_cancel_left _ (by decide)]
    exact counted_le s.log
  · intro new mid old _ hlater _
    exact restarted (Bool.and_eq_true_iff.mp hlater).1

end Prefill

end Kutsu
