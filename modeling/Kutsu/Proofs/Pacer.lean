import Mathlib.Data.List.Forall2
import Mathlib.Logic.Relation
import Kutsu.Lib.Buffer
import Kutsu.Proofs.Drain
import Kutsu.Proofs.Resample

/-! What becomes of the samples pushed into the pacer: each is fed to the downsampler once and in its
turn, dropped, or still buffered. -/

namespace Kutsu

open Buffers

namespace Downsampler

/-- From any point of its input the downsampler turns 20 ms into 160 samples. -/
theorem length_process_after (h : List ℚ) (xs block : List Sample) (hlen : block.length = IN_PER_FRAME) :
    ((after xs).process h block).1.length = 160 := by
  have hsplit := process_append (h := h) new xs block
  rw [process_new, process_new] at hsplit
  have hout := congrArg (fun r => r.1.length) hsplit
  simp only [reference, List.length_append, List.length_map, List.length_range, hlen] at hout
  have hblock : IN_PER_FRAME = 480 := rfl
  omega

theorem process_after (h : List ℚ) (xs block : List Sample) :
    ((after xs).process h block).2 = after (xs ++ block) := by
  have hsplit := process_append (h := h) new xs block
  rw [process_new, process_new] at hsplit
  exact (congrArg Prod.snd hsplit).symm

end Downsampler

/-- A sample that may have been faded. -/
def Softened : Sample → Sample → Prop := Relation.ReflTransGen fun v w => ∃ n i, i < n ∧ w = Downlink.fadeSample n i v

/-- The downlink with the books of its buffer. `pushed` has the samples in the order of their numbers, `fed` those
that have been fed to the downsampler, `faded` the numbers of those that a fade has gone over. -/
structure Pacer where
  d : Downlink
  pushed : List Sample := []
  fed : List Sample := []
  faded : List ℕ := []
  books : Books := {}
  frames : List (List Sample) := []

namespace Pacer

def new (prebufferMs resumeMs : ℕ) : Pacer := { d := Downlink.new prebufferMs resumeMs }

/-- The books read what an operation does off the length of the buffer. -/
def apply (h : List ℚ) (s : Pacer) : PaceOp → Pacer
  | .push samples =>
    { s with d := s.d.push samples, pushed := s.pushed ++ samples, books := s.books.arrive samples.length }
  | .nextFrame =>
    let frame := s.d.nextFrame h
    let n := s.d.buf.length - frame.2.buf.length
    { s with d := frame.2, fed := s.fed ++ s.d.buf.take n, books := s.books.take n, frames := s.frames ++ [frame.1] }
  | .clear => { s with d := s.d.clear, books := s.books.keep s.d.clear.buf.length }
  | .interruptFade fadeMs =>
    let d := s.d.interruptFade fadeMs
    { s with d, faded := s.faded ++ s.books.held.take d.buf.length, books := s.books.keep d.buf.length }
  | .setExpecting expecting => { s with d := s.d.setExpecting expecting }

/-- The value is that of the sample with the number `k`, as it was pushed unless a fade has gone over it. -/
def Carries (s : Pacer) (k : ℕ) (v : Sample) : Prop :=
  ∃ x, s.pushed[k]? = some x ∧ (v = x ∨ k ∈ s.faded ∧ Softened x v)

structure Kept (s : Pacer) : Prop where
  books : s.books.Sound
  arrived : s.books.arrived = s.pushed.length
  fed : List.Forall₂ s.Carries s.books.taken s.fed
  held : List.Forall₂ s.Carries s.books.held s.d.buf

structure Framed (s : Pacer) : Prop where
  down : ∃ xs, s.d.down = Downsampler.after xs
  frames : ∀ frame ∈ s.frames, frame.length = 160

structure Conserved (s : Pacer) : Prop extends Kept s, Framed s

variable {h : List ℚ} {s : Pacer}

theorem apply_d (h : List ℚ) (s : Pacer) (op : PaceOp) : (s.apply h op).d = op.apply h s.d := by
  cases op <;> rfl

theorem conserved_new (prebufferMs resumeMs : ℕ) : (new prebufferMs resumeMs).Conserved :=
  ⟨⟨Books.sound_new, rfl, .nil, .nil⟩, ⟨[], rfl⟩, fun _ hf => by cases hf⟩

theorem silenceFrame_feeds (h : List ℚ) (d : Downlink) :
    (d.silenceFrame h).2.buf = d.buf ∧
      ((d.silenceFrame h).1, (d.silenceFrame h).2.down) = d.down.process h (List.replicate IN_PER_FRAME 0) := by
  simp only [Downlink.silenceFrame, Prod.mk.eta, and_self]

theorem nextFrame_feeds (h : List ℚ) (d : Downlink) :
    (IN_PER_FRAME ≤ d.buf.length ∧ (d.nextFrame h).2.buf = d.buf.drop IN_PER_FRAME ∧
      ((d.nextFrame h).1, (d.nextFrame h).2.down) = d.down.process h (d.buf.take IN_PER_FRAME)) ∨
    ((d.nextFrame h).2.buf = d.buf ∧
      ((d.nextFrame h).1, (d.nextFrame h).2.down) = d.down.process h (List.replicate IN_PER_FRAME 0)) := by
  by_cases hr : d.Ready
  · by_cases hlen : IN_PER_FRAME ≤ d.buf.length
    · rw [Downlink.nextFrame_play hr hlen]
      exact Or.inl ⟨hlen, rfl, rfl⟩
    · have hp : d.playing = true := hr.resolve_right fun hfill => hlen ((le_max_right _ _).trans hfill)
      rw [Downlink.nextFrame_dry hp (Nat.lt_of_not_le hlen)]
      exact Or.inr (silenceFrame_feeds h _)
  · rw [Downlink.nextFrame_hold hr]
    exact Or.inr (silenceFrame_feeds h _)

theorem buf_interruptFade_eq (d : Downlink) (fadeMs : ℕ) :
    (d.interruptFade fadeMs).buf =
      (d.buf.take (min (fadeMs * SAMPLES_PER_MS) d.buf.length)).mapIdx
        (Downlink.fadeSample (min (fadeMs * SAMPLES_PER_MS) d.buf.length)) := by
  unfold Downlink.interruptFade
  dsimp only
  split_ifs with hnone
  · rw [hnone]
    rfl
  · rfl

theorem forall₂_take_mapIdx {α β : Type*} {R R' : α → β → Prop} {f : ℕ → β → β} {ks : List α} {vs : List β} {n : ℕ}
    (hR : List.Forall₂ R ks vs) (hf : ∀ i k v, i < n → k ∈ ks.take n → R k v → R' k (f i v)) :
    List.Forall₂ R' (ks.take n) ((vs.take n).mapIdx f) := by
  obtain ⟨hlen, hget⟩ := List.forall₂_iff_get.mp (List.forall₂_take n hR)
  refine List.forall₂_iff_get.mpr ⟨by rw [List.length_mapIdx, hlen], fun i hi hi' => ?_⟩
  rw [List.length_mapIdx] at hi'
  simp only [List.get_eq_getElem, List.getElem_mapIdx]
  exact hf i _ _ (lt_of_lt_of_le hi (List.length_take_le n ks)) (List.getElem_mem hi) (hget i hi hi')

theorem nextFrame_drops (h : List ℚ) (d : Downlink) :
    (d.nextFrame h).2.buf = d.buf.drop (d.buf.length - (d.nextFrame h).2.buf.length) :=
  List.suffix_iff_eq_drop.mp Downlink.buf_nextFrame

theorem length_interruptFade (d : Downlink) (fadeMs : ℕ) :
    (d.interruptFade fadeMs).buf.length = min (fadeMs * SAMPLES_PER_MS) d.buf.length := by
  rw [buf_interruptFade_eq, List.length_mapIdx, List.length_take, Nat.min_eq_left (Nat.min_le_right _ _)]

theorem Kept.push (hs : s.Kept) (samples : List Sample) : (s.apply h (.push samples)).Kept := by
  have hgrow : ∀ k v, s.Carries k v → (s.apply h (.push samples)).Carries k v := by
    rintro k v ⟨x, hx, hv⟩
    have hlt : k < s.pushed.length := (List.getElem?_eq_some_iff.mp hx).1
    exact ⟨x, (List.getElem?_append_left hlt).trans hx, hv⟩
  refine ⟨hs.books.arrive _, ?_, hs.fed.imp hgrow, ?_⟩
  · simp only [apply, Books.arrive, hs.arrived, List.length_append]
  · refine List.rel_append (hs.held.imp hgrow) ?_
    refine List.forall₂_iff_get.mpr ⟨List.length_range', fun i hi hi' => ?_⟩
    refine ⟨samples.get ⟨i, hi'⟩, ?_, Or.inl rfl⟩
    simp only [List.get_eq_getElem, List.getElem_range', apply, hs.arrived, Nat.one_mul]
    rw [List.getElem?_append_right (Nat.le_add_right _ _), Nat.add_sub_cancel_left]
    exact List.getElem?_eq_getElem hi'

theorem Kept.nextFrame (hs : s.Kept) : (s.apply h .nextFrame).Kept := by
  refine ⟨hs.books.take _, hs.arrived, List.rel_append hs.fed (List.forall₂_take _ hs.held), ?_⟩
  have hdrop := List.forall₂_drop (s.d.buf.length - (s.d.nextFrame h).2.buf.length) hs.held
  rw [← nextFrame_drops h s.d] at hdrop
  exact hdrop

theorem Kept.interruptFade (hs : s.Kept) (fadeMs : ℕ) : (s.apply h (.interruptFade fadeMs)).Kept := by
  have hmore : ∀ k v, s.Carries k v → (s.apply h (.interruptFade fadeMs)).Carries k v := by
    rintro k v ⟨x, hx, hv⟩
    exact ⟨x, hx, hv.imp_right fun hk => ⟨List.mem_append_left _ hk.1, hk.2⟩⟩
  refine ⟨hs.books.keep _, hs.arrived, hs.fed.imp hmore, ?_⟩
  have hlen := length_interruptFade s.d fadeMs
  change List.Forall₂ (s.apply h (.interruptFade fadeMs)).Carries
    (s.books.held.take (s.d.interruptFade fadeMs).buf.length) (s.d.interruptFade fadeMs).buf
  rw [hlen, buf_interruptFade_eq]
  refine forall₂_take_mapIdx hs.held fun i k v hi hk hv => ?_
  obtain ⟨x, hx, hv⟩ := hv
  refine ⟨x, hx, Or.inr ⟨List.mem_append_right _ (hlen ▸ hk), ?_⟩⟩
  refine Relation.ReflTransGen.tail ?_ ⟨_, i, hi, rfl⟩
  rcases hv with rfl | ⟨-, hv⟩
  · exact .refl
  · exact hv

theorem Kept.setExpecting (hs : s.Kept) (expecting : Bool) : (s.apply h (.setExpecting expecting)).Kept := by
  refine ⟨hs.books, hs.arrived, hs.fed, ?_⟩
  simp only [apply, Downlink.buf_setExpecting]
  exact hs.held

theorem Kept.apply (hs : s.Kept) (op : PaceOp) : (s.apply h op).Kept := by
  cases op with
  | push samples => exact hs.push samples
  | nextFrame => exact hs.nextFrame
  | clear => exact ⟨hs.books.keep _, hs.arrived, hs.fed, .nil⟩
  | interruptFade fadeMs => exact hs.interruptFade fadeMs
  | setExpecting expecting => exact hs.setExpecting expecting

theorem Framed.nextFrame (hs : s.Framed) : (s.apply h .nextFrame).Framed := by
  obtain ⟨xs, hxs⟩ := hs.down
  have hblock : ∃ block : List Sample, block.length = IN_PER_FRAME ∧
      ((s.d.nextFrame h).1, (s.d.nextFrame h).2.down) = (Downsampler.after xs).process h block := by
    rcases nextFrame_feeds h s.d with ⟨hlen, -, heq⟩ | ⟨-, heq⟩
    · exact ⟨_, by rw [List.length_take, Nat.min_eq_left hlen], hxs ▸ heq⟩
    · exact ⟨_, List.length_replicate, hxs ▸ heq⟩
  obtain ⟨block, hlen, heq⟩ := hblock
  have hframe : (s.d.nextFrame h).1.length = 160 := by
    rw [← Downsampler.length_process_after h xs block hlen, ← heq]
  refine ⟨⟨xs ++ block, ?_⟩, fun frame hf => ?_⟩
  · rw [← Downsampler.process_after h, ← heq]
    rfl
  · rcases List.mem_append.mp hf with hf | hf
    · exact hs.frames frame hf
    · rw [List.mem_singleton.mp hf, hframe]

theorem Framed.apply (hs : s.Framed) (op : PaceOp) : (s.apply h op).Framed := by
  cases op with
  | push samples => exact ⟨hs.down, hs.frames⟩
  | nextFrame => exact hs.nextFrame
  | clear => exact ⟨⟨[], rfl⟩, hs.frames⟩
  | interruptFade fadeMs =>
    refine ⟨?_, hs.frames⟩
    simp only [Pacer.apply, Downlink.interruptFade]
    split_ifs
    · exact ⟨[], rfl⟩
    · exact hs.down
  | setExpecting expecting =>
    refine ⟨?_, hs.frames⟩
    simp only [Pacer.apply, Downlink.setExpecting]
    split_ifs <;> exact hs.down

theorem Kept.foldl (hs : s.Kept) (ops : List PaceOp) : (ops.foldl (Pacer.apply h) s).Kept :=
  List.foldlRecOn (motive := Kept) ops (Pacer.apply h) hs fun _ hs op _ => hs.apply op

theorem Framed.foldl (hs : s.Framed) (ops : List PaceOp) : (ops.foldl (Pacer.apply h) s).Framed :=
  List.foldlRecOn (motive := Framed) ops (Pacer.apply h) hs fun _ hs op _ => hs.apply op

theorem foldl_d (h : List ℚ) (s : Pacer) (ops : List PaceOp) :
    (ops.foldl (apply h) s).d = ops.foldl (PaceOp.apply h) s.d := by
  induction ops generalizing s with
  | nil => rfl
  | cons op ops ih => rw [List.foldl_cons, List.foldl_cons, ih, apply_d]

theorem Kept.count (hs : s.Kept) :
    s.pushed.length = s.fed.length + s.books.dropped.length + s.d.buf.length := by
  have hcount := hs.books.count
  rw [hs.arrived, hs.fed.length_eq, hs.held.length_eq] at hcount
  exact hcount

/-- In any use of the pacer each sample pushed is fed once, dropped by a barge-in or still buffered. What is
fed and buffered keeps the order of the pushes, and the next frame has 160 samples, made of the 480 at the front
of the buffer or of zeros that leave it as it was. -/
theorem pacer_conserves (h : List ℚ) (prebufferMs resumeMs : ℕ) (ops : List PaceOp) :
    let s := ops.foldl (apply h) (new prebufferMs resumeMs)
    s.d = ops.foldl (PaceOp.apply h) (Downlink.new prebufferMs resumeMs) ∧ s.Conserved ∧
      s.pushed.length = s.fed.length + s.books.dropped.length + s.d.buf.length ∧
      (s.d.nextFrame h).1.length = 160 ∧
      ((IN_PER_FRAME ≤ s.d.buf.length ∧ (s.d.nextFrame h).2.buf = s.d.buf.drop IN_PER_FRAME ∧
          ((s.d.nextFrame h).1, (s.d.nextFrame h).2.down) = s.d.down.process h (s.d.buf.take IN_PER_FRAME)) ∨
        ((s.d.nextFrame h).2.buf = s.d.buf ∧
          ((s.d.nextFrame h).1, (s.d.nextFrame h).2.down) =
            s.d.down.process h (List.replicate IN_PER_FRAME 0))) := by
  intro s
  have hnew := conserved_new prebufferMs resumeMs
  have hs : s.Conserved := ⟨hnew.toKept.foldl ops, hnew.toFramed.foldl ops⟩
  refine ⟨foldl_d h _ ops, hs, hs.count, ?_, nextFrame_feeds h s.d⟩
  exact (hs.toFramed.nextFrame (h := h)).frames _ (List.mem_append_right _ (List.mem_singleton_self _))

end Pacer

end Kutsu
