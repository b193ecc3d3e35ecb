import Mathlib.Algebra.Order.Floor.Div
import Kutsu.Proofs.Pacer

/-! What a barge-in leaves of the interrupted turn. The head that it keeps is played in blocks of 20 ms, and a
rest shorter than a block stays in the buffer for the next turn. -/

namespace Kutsu

open Buffers

namespace Pacer

/-- The pacer at any state, with what it has buffered as the samples pushed so far. -/
def holding (d : Downlink) : Pacer :=
  { d, pushed := d.buf, books := { arrived := d.buf.length, held := List.range d.buf.length } }

/-- The interruption, and the frames that the faded head takes. -/
def bargeIn (fadeMs : ℕ) : List PaceOp :=
  .interruptFade fadeMs :: List.replicate (fadeMs * SAMPLES_PER_MS ⌈/⌉ IN_PER_FRAME) .nextFrame

/-- Nothing is buffered, nothing is pending, and whatever is done next no sample of the old turn is fed. -/
structure LeavesNothing (h : List ℚ) (s : Pacer) : Prop where
  empty : s.d.buf = []
  pending : s.d.pending = false
  fed : ∀ ops : List PaceOp, s.books.Fresh (ops.foldl (apply h) s).books

variable {h : List ℚ} {s : Pacer} {d : Downlink}

theorem kept_holding (d : Downlink) : (holding d).Kept := by
  refine ⟨Books.sound_full _, rfl, .nil, List.forall₂_iff_get.mpr ⟨List.length_range, fun i hi hi' => ?_⟩⟩
  refine ⟨d.buf.get ⟨i, hi'⟩, ?_, Or.inl rfl⟩
  simp only [holding, List.get_eq_getElem, List.getElem_range]
  exact List.getElem?_eq_getElem hi'

theorem fresh_apply {old : Books} (hs : old.Fresh s.books) (op : PaceOp) : old.Fresh (s.apply h op).books := by
  cases op with
  | push samples => exact hs.arrive _
  | nextFrame => exact hs.take _
  | clear => exact hs.keep _
  | interruptFade fadeMs => exact hs.keep _
  | setExpecting expecting => exact hs

theorem fresh_foldl {old : Books} (hs : old.Fresh s.books) (ops : List PaceOp) :
    old.Fresh (ops.foldl (apply h) s).books :=
  List.foldlRecOn (motive := fun s : Pacer => old.Fresh s.books) ops (apply h) hs fun _ hs op _ => fresh_apply hs op

theorem leavesNothing_of_empty (hs : s.Kept) (hempty : s.d.buf = []) : s.LeavesNothing h := by
  refine ⟨hempty, Downlink.pending_eq_false.mpr hempty, fresh_foldl (Books.fresh_refl ?_)⟩
  refine List.eq_nil_of_length_eq_zero (hs.held.length_eq.trans ?_)
  rw [hempty, List.length_nil]

/-- What is still buffered is played in a later turn: push until the fill target is met. -/
theorem feeds_old (hs : s.Kept) (hne : s.d.buf ≠ []) :
    ∃ ops : List PaceOp, ¬ s.books.Fresh (ops.foldl (apply h) s).books := by
  set n := max s.d.fillTarget IN_PER_FRAME with hn
  refine ⟨[.push (List.replicate n 0), .nextFrame], ?_⟩
  rintro ⟨-, new, htaken, hnew⟩
  set t := s.apply h (.push (List.replicate n 0)) with ht
  have hlen : t.d.buf.length = s.d.buf.length + n := by
    simp only [ht, apply, Downlink.push, List.length_append, List.length_replicate]
  have hready : t.d.Ready := Or.inr (by rw [hlen]; exact Nat.le_add_left _ _)
  have hblock : IN_PER_FRAME ≤ t.d.buf.length := by rw [hlen]; omega
  have hfed : new = t.books.held.take (t.d.buf.length - (t.d.buf.length - IN_PER_FRAME)) := by
    have hnext : (t.apply h .nextFrame).books.taken = s.books.taken ++ new := htaken
    simp only [apply, Books.take, Downlink.nextFrame_play hready hblock, List.length_drop] at hnext
    exact (List.append_cancel_left hnext).symm
  rw [Nat.sub_sub_self hblock] at hfed
  obtain ⟨k, rest, hheld⟩ : ∃ k rest, s.books.held = k :: rest := by
    refine List.exists_cons_of_ne_nil fun hnil => hne (List.eq_nil_of_length_eq_zero ?_)
    rw [← hs.held.length_eq, hnil, List.length_nil]
  have hold : s.books.arrived ≤ k := by
    refine hnew k (List.mem_append_left _ ?_)
    rw [hfed, ht]
    simp only [apply, Books.arrive, hheld, List.cons_append]
    exact List.mem_cons_self
  have hlt : k < s.books.arrived := hs.books.lt_arrived (by simp [hheld])
  omega

theorem leavesNothing_iff (hs : s.Kept) : s.LeavesNothing h ↔ s.d.buf = [] :=
  ⟨fun hnone => hnone.empty, leavesNothing_of_empty hs⟩

/-- Playout is under way, or nothing is left that a frame could take. -/
def Draining (d : Downlink) : Prop := d.playing = true ∨ d.buf.length < IN_PER_FRAME

theorem draining_interruptFade (d : Downlink) (fadeMs : ℕ) : Draining (d.interruptFade fadeMs) := by
  unfold Downlink.interruptFade
  dsimp only
  split_ifs
  · exact Or.inr (by decide : ([] : List Sample).length < IN_PER_FRAME)
  · exact Or.inl rfl

theorem draining_nextFrame (hd : Draining d) : Draining (d.nextFrame h).2 ∧
    (d.nextFrame h).2.buf.length =
      if IN_PER_FRAME ≤ d.buf.length then d.buf.length - IN_PER_FRAME else d.buf.length := by
  split_ifs with hlen
  · have hp : d.playing = true := hd.resolve_right (Nat.not_lt.mpr hlen)
    rw [Downlink.nextFrame_play (Or.inl hp) hlen, List.length_drop]
    exact ⟨Or.inl rfl, rfl⟩
  · have hsame : (d.nextFrame h).2.buf = d.buf := by
      rcases nextFrame_feeds h d with ⟨hle, -⟩ | ⟨hbuf, -⟩
      · exact absurd hle hlen
      · exact hbuf
    rw [hsame]
    exact ⟨Or.inr (by rw [hsame]; omega), rfl⟩

theorem length_play {n : ℕ} (hd : Draining d) (hn : d.buf.length < IN_PER_FRAME * (n + 1)) :
    (d.play h n).2.buf.length = d.buf.length % IN_PER_FRAME := by
  induction n generalizing d with
  | zero =>
    rw [Nat.mul_one] at hn
    exact (Nat.mod_eq_of_lt hn).symm
  | succ n ih =>
    obtain ⟨hnext, hlen⟩ := draining_nextFrame (h := h) hd
    rw [Nat.mul_succ] at hn
    have hrest := ih hnext
    rw [hlen] at hrest
    split_ifs at hrest with hle
    · rw [← Nat.mod_eq_sub_mod hle] at hrest
      exact hrest (by omega)
    · exact hrest ((Nat.lt_of_not_le hle).trans_le (Nat.le_mul_of_pos_right _ (Nat.succ_pos n)))

theorem foldl_replicate (d : Downlink) (n : ℕ) :
    (List.replicate n PaceOp.nextFrame).foldl (PaceOp.apply h) d = (d.play h n).2 := by
  induction n generalizing d with
  | zero => rfl
  | succ n ih => exact ih _

theorem length_bargeIn (h : List ℚ) (d : Downlink) (fadeMs : ℕ) :
    ((bargeIn fadeMs).foldl (apply h) (holding d)).d.buf.length =
      min (fadeMs * SAMPLES_PER_MS) d.buf.length % IN_PER_FRAME := by
  have hhead := length_interruptFade d fadeMs
  rw [foldl_d, bargeIn, List.foldl_cons, foldl_replicate]
  change ((d.interruptFade fadeMs).play h _).2.buf.length = _
  rw [length_play (draining_interruptFade d fadeMs), hhead]
  have hceil : fadeMs * SAMPLES_PER_MS ≤ IN_PER_FRAME * (fadeMs * SAMPLES_PER_MS ⌈/⌉ IN_PER_FRAME) :=
    le_smul_ceilDiv (show 0 < IN_PER_FRAME by decide)
  have hpos : 0 < IN_PER_FRAME := by decide
  rw [hhead, Nat.mul_succ]
  omega

/-- A barge-in leaves nothing of the old turn exactly when the head that it fades is whole frames. -/
theorem barge_in_leaves_nothing_iff (h : List ℚ) (d : Downlink) (fadeMs : ℕ) :
    ((bargeIn fadeMs).foldl (apply h) (holding d)).LeavesNothing h ↔
      IN_PER_FRAME ∣ min (fadeMs * SAMPLES_PER_MS) d.buf.length := by
  rw [leavesNothing_iff ((kept_holding d).foldl _), ← List.length_eq_zero_iff, length_bargeIn,
    Nat.dvd_iff_mod_eq_zero]

/-- A barge-in on 25 ms of audio with the bridge's fade, and the two frames that it is to be played out in. -/
def bargedIn : Pacer := (bargeIn 25).foldl (apply [1]) (holding ((Downlink.new 800 400).push (List.replicate 600 1000)))

/-- The fade keeps 600 samples and plays 480 of them; the next turn plays the other 120 first. -/
theorem barge_in_leaves_tail : ¬ bargedIn.LeavesNothing [1] ∧ bargedIn.d.pending = true ∧
    ∃ ops : List PaceOp, ¬ bargedIn.books.Fresh (ops.foldl (apply [1]) bargedIn).books := by
  have hlen : bargedIn.d.buf.length = 120 := by
    rw [bargedIn, length_bargeIn, Downlink.push, List.length_append, List.length_replicate]
    rfl
  have hne : bargedIn.d.buf ≠ [] := fun hnil => by rw [hnil] at hlen; cases hlen
  refine ⟨fun hnone => hne hnone.empty, ?_, feeds_old ((kept_holding _).foldl _) hne⟩
  exact Bool.not_eq_false _ ▸ mt Downlink.pending_eq_false.mp hne

end Pacer

end Kutsu
