import Kutsu.Model.Live

/-! G.711 companding (`bridge/g711.rs`). The intermediate values stay far inside an `i32`. -/

namespace Kutsu

def BIAS : ℤ := 0x84

def CLIP : ℤ := 8159

def SEG_UEND : List ℕ := [0x3F, 0x7F, 0xFF, 0x1FF, 0x3FF, 0x7FF, 0xFFF, 0x1FFF]

def SEG_AEND : List ℕ := [0x1F, 0x3F, 0x7F, 0xFF, 0x1FF, 0x3FF, 0x7FF, 0xFFF]

/-- The place of the first bound that is not passed; past the end where all are. -/
def search (val : ℕ) (table : List ℕ) : ℕ := table.findIdx fun t => val ≤ t

/-- `as i16` -/
def asI16 (n : ℤ) : Sample := n.bmod 65536

def encodeUlaw (pcm : Sample) : UInt8 :=
  let v : ℤ := (pcm : ℤ) >>> (2 : ℕ)
  let mask := if v < 0 then 0x7F else 0xFF
  let pcmVal := (min (if v < 0 then -v else v) CLIP + BIAS >>> (2 : ℕ)).toNat
  let seg := search pcmVal SEG_UEND
  if 8 ≤ seg then UInt8.ofNat (0x7F ^^^ mask)
  else UInt8.ofNat ((seg <<< 4 ||| pcmVal >>> (seg + 1) &&& 0xF) ^^^ mask)

def decodeUlaw (u : UInt8) : Sample :=
  let u := (~~~u).toNat
  let t : ℤ := (((((u &&& 0x0F) <<< 3) + BIAS.toNat) <<< ((u &&& 0x70) >>> 4) : ℕ) : ℤ)
  asI16 (if u &&& 0x80 ≠ 0 then BIAS - t else t - BIAS)

def encodeAlaw (pcm : Sample) : UInt8 :=
  let v : ℤ := (pcm : ℤ) >>> (3 : ℕ)
  let mask := if 0 ≤ v then 0xD5 else 0x55
  let pcmVal := (if 0 ≤ v then v else -v - 1).toNat
  let seg := search pcmVal SEG_AEND
  if 8 ≤ seg then UInt8.ofNat (0x7F ^^^ mask)
  else
    let aval := seg <<< 4 ||| if seg < 2 then pcmVal >>> 1 &&& 0xF else pcmVal >>> seg &&& 0xF
    UInt8.ofNat (aval ^^^ mask)

def decodeAlaw (a : UInt8) : Sample :=
  let a := (a ^^^ 0x55).toNat
  let t := (a &&& 0x0F) <<< 4
  let seg := (a &&& 0x70) >>> 4
  let t : ℤ := match seg with
    | 0 => ((t + 8 : ℕ) : ℤ)
    | 1 => ((t + 0x108 : ℕ) : ℤ)
    | _ => (((t + 0x108) <<< (seg - 1) : ℕ) : ℤ)
  asI16 (if a &&& 0x80 ≠ 0 then t else -t)

def G711Kind.decodeByte : G711Kind → UInt8 → Sample
  | .ulaw => decodeUlaw
  | .alaw => decodeAlaw

def G711Kind.encodeSample : G711Kind → Sample → UInt8
  | .ulaw => encodeUlaw
  | .alaw => encodeAlaw

def decode (kind : G711Kind) (payload : List UInt8) : List Sample := payload.map kind.decodeByte

def encode (kind : G711Kind) (pcm : List Sample) : List UInt8 := pcm.map kind.encodeSample

end Kutsu
