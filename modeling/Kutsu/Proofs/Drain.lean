import Kutsu.Model.Pace

/-! When a finished turn plays out. With nothing more pushed the buffer only shrinks by
whole blocks, so it empties exactly when playout is under way (or the fill target is
met) and the buffered audio is a whole number of 20 ms blocks. -/

namespace Kutsu

namespace Downlink

def play (h : List ℚ) (d : Downlink) : ℕ → List Sample × Downlink
  | 0 => ([], d)
  | n + 1 =>
    let frame := d.nextFrame h
    let rest := frame.2.play h n
    (frame.1 ++ rest.1, rest.2)

/-- The `n` frames are the downsampler's output for everything buffered, padded with
`k` zeros, and nothing is left to play. -/
def PlaysOut (h : List ℚ) (d : Downlink) (n k : ℕ) : Prop :=
  (d.play h n).1 = (d.down.process h (d.buf ++ List.replicate k 0)).1 ∧
    (d.play h n).2.pending = false

def Drainable (d : Downlink) : Prop := d.buf = [] ∨ (d.Ready ∧ IN_PER_FRAME ∣ d.buf.length)

variable {h : List ℚ} {d : Downlink}

theorem pending_eq_false : d.pending = false ↔ d.buf = [] := by
  simp [pending]

theorem buf_setExpecting (expecting : Bool) : (d.setExpecting expecting).buf = d.buf := by
  unfold setExpecting
  split_ifs <;> rfl

theorem buf_interruptFade (fadeMs : ℕ) (hd : d.buf = []) : (d.interruptFade fadeMs).buf = [] := by
  simp [interruptFade, clear, hd]

theorem buf_nextFrame : (d.nextFrame h).2.buf <:+ d.buf := by
  by_cases hr : d.Ready
  · by_cases hlen : IN_PER_FRAME ≤ d.buf.length
    · rw [nextFrame_play hr hlen]
      exact List.drop_suffix _ _
    · have hp : d.playing = true := hr.resolve_right fun hfill =>
        hlen ((le_max_right _ _).trans hfill)
      rw [nextFrame_dry hp (Nat.lt_of_not_le hlen)]
      simp only [silenceFrame, List.suffix_rfl]
  · rw [nextFrame_hold hr]
    simp only [silenceFrame, List.suffix_rfl]

theorem ready_setExpecting_false : (d.setExpecting false).Ready ↔ d.Ready := by
  simp [setExpecting, Ready]

theorem silenceFrame_drainable : (d.silenceFrame h).2.Drainable ↔ d.Drainable := by
  simp only [Drainable, Ready, silenceFrame]

theorem drainable_of_nextFrame (hd : (d.nextFrame h).2.Drainable) : d.Drainable := by
  by_cases hr : d.Ready
  · by_cases hlen : IN_PER_FRAME ≤ d.buf.length
    · right
      refine ⟨hr, ?_⟩
      rw [nextFrame_play hr hlen] at hd
      rcases hd with hnil | ⟨-, hdvd⟩
      · have := congrArg List.length hnil
        simp only [List.length_drop, List.length_nil] at this
        rw [show d.buf.length = IN_PER_FRAME by omega]
      · simp only [List.length_drop] at hdvd
        have hsum := Nat.dvd_add hdvd (dvd_refl IN_PER_FRAME)
        rwa [Nat.sub_add_cancel hlen] at hsum
    · have hp : d.playing = true := by
        rcases hr with hp | hfill
        · exact hp
        · exact absurd (le_trans (le_max_right _ _) hfill) hlen
      rw [nextFrame_dry hp (Nat.lt_of_not_le hlen), silenceFrame_drainable] at hd
      rcases hd with hnil | ⟨hready, -⟩
      · exact Or.inl hnil
      · -- the buffer ran dry: playout stops and waits for more than is left
        rcases hready with hfalse | hfill
        · cases hfalse
        · exact absurd (le_trans (le_max_right _ _) hfill) hlen
  · rw [nextFrame_hold hr, silenceFrame_drainable] at hd
    exact hd

theorem drainable_of_play (n : ℕ) (hd : (d.play h n).2.Drainable) : d.Drainable := by
  induction n generalizing d with
  | zero => exact hd
  | succ n ih => exact drainable_of_nextFrame (ih hd)

/-- A drainable buffer of `n` blocks is played by the next `n` frames. -/
theorem play_blocks (n : ℕ) (hr : d.Ready) (hlen : d.buf.length = IN_PER_FRAME * n) :
    (d.play h n).1 = (d.down.process h d.buf).1 ∧ (d.play h n).2.buf = [] := by
  induction n generalizing d with
  | zero =>
    have hnil := List.eq_nil_of_length_eq_zero (hlen.trans (Nat.mul_zero _))
    exact ⟨by rw [hnil]; rfl, hnil⟩
  | succ n ih =>
    have hle : IN_PER_FRAME ≤ d.buf.length := by rw [hlen, Nat.mul_succ]; omega
    have hsplit := Downsampler.process_append (h := h) d.down (d.buf.take IN_PER_FRAME)
      (d.buf.drop IN_PER_FRAME)
    rw [List.take_append_drop] at hsplit
    have hrest : (d.nextFrame h).2.buf.length = IN_PER_FRAME * n := by
      rw [nextFrame_play hr hle, List.length_drop, hlen, Nat.mul_succ]
      omega
    have hready : (d.nextFrame h).2.Ready := by rw [nextFrame_play hr hle]; exact Or.inl rfl
    obtain ⟨hout, hbuf⟩ := ih hready hrest
    refine ⟨?_, hbuf⟩
    calc (d.play h (n + 1)).1 = (d.nextFrame h).1 ++ ((d.nextFrame h).2.play h n).1 := rfl
      _ = (d.down.process h d.buf).1 := by rw [hout, hsplit, nextFrame_play hr hle]

theorem playsOut_iff : (∃ n k, d.PlaysOut h n k) ↔ d.Drainable := by
  refine ⟨fun ⟨n, k, _, hpend⟩ => ?_, fun hd => ?_⟩
  · exact drainable_of_play n (Or.inl (pending_eq_false.mp hpend))
  · rcases hd with hnil | ⟨hr, n, hlen⟩
    · exact ⟨0, 0, by simp [play, hnil], pending_eq_false.mpr hnil⟩
    · obtain ⟨hout, hbuf⟩ := play_blocks (h := h) n hr hlen
      exact ⟨n, 0, by simpa using hout, pending_eq_false.mpr hbuf⟩

/-- After any use of the pacer and the end of the turn, some number of frames plays all
that is buffered exactly when playout is under way or the fill target is met, and what
is buffered is whole blocks (or nothing is). -/
theorem finished_turn_plays_out_iff (h : List ℚ) (prebufferMs resumeMs : ℕ) (ops : List PaceOp) :
    (∃ n k, ((ops.foldl (PaceOp.apply h) (new prebufferMs resumeMs)).setExpecting
        false).PlaysOut h n k) ↔
      (ops.foldl (PaceOp.apply h) (new prebufferMs resumeMs)).Drainable := by
  rw [playsOut_iff]
  exact or_congr Iff.rfl (and_congr ready_setExpecting_false Iff.rfl)

/-- 300 ms of audio under the default 800 ms prebuffer, then the turn ends. -/
def shortGoodbye : List PaceOp :=
  [.setExpecting true, .push (List.replicate 7200 1000)]

/-- However many frames follow, the goodbye is still pending. -/
theorem short_goodbye_withheld : ¬ ∃ (h : List ℚ) (n : ℕ),
    (((shortGoodbye.foldl (PaceOp.apply h) (new 800 400)).setExpecting false).play h n).2.pending
      = false := by
  rintro ⟨h, n, hpend⟩
  rcases drainable_of_play n (Or.inl (pending_eq_false.mp hpend)) with hnil | ⟨hready, -⟩
  · have hlen : (List.replicate 7200 (1000 : Sample)).length = 0 := congrArg List.length hnil
    rw [List.length_replicate] at hlen
    cases hlen
  · rcases hready with hplaying | hfill
    · cases hplaying
    · have hlen : max (800 * 24) 480 ≤ (List.replicate 7200 (1000 : Sample)).length := hfill
      rw [List.length_replicate] at hlen
      omega

end Downlink

end Kutsu
