import Kutsu.Model.Live

/-! Loss and reorder accounting of the phone's RTP stream (`sip/uplink.rs`). Sequence numbers have
16 bits; the counters are unbounded. -/

namespace Kutsu

structure UplinkStats where
  started : Bool
  cycles : ℕ
  max16 : UInt16
  firstExt : ℕ
  received : ℕ
  reordered : ℕ

namespace UplinkStats

def new : UplinkStats := ⟨false, 0, 0, 0, 0, 0⟩

def observe (s : UplinkStats) (seq : UInt16) : UplinkStats :=
  if !s.started then { s with started := true, max16 := seq, firstExt := seq.toNat, received := 1 }
  else
    let s' := { s with received := s.received + 1 }
    -- `wrapping_sub`: how far up `seq` lies from the maximum
    let forward := seq - s.max16
    if forward = 0 then s'
    else if forward < 0x8000 then
      { s' with cycles := if seq < s.max16 then s.cycles + 1 else s.cycles, max16 := seq }
    else { s' with reordered := s.reordered + 1 }

def maxExt (s : UplinkStats) : ℕ := s.cycles * 65536 + s.max16.toNat

def snapshot (s : UplinkStats) : UplinkQuality :=
  if !s.started then ⟨0, 0, 0⟩
  else ⟨s.received, s.maxExt - s.firstExt + 1 - s.received, s.reordered⟩

def observeAll (s : UplinkStats) (seqs : List UInt16) : UplinkStats := seqs.foldl observe s

end UplinkStats

end Kutsu
