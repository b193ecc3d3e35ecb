import Mathlib.Data.List.AList
import Mathlib.Data.Rat.Defs
import Mathlib.Data.List.Sort
import Kutsu.Model.Types

/-! The call store (`state.rs`): one record per call id, and the history cap that
evicts ended records. The map's iteration order is not used: the records to evict
are sorted by the number in their id. -/

namespace Kutsu

inductive CallState where
  | queued
  | ringing
  | inProgress
  | ended
  deriving DecidableEq

inductive Disposition where
  | completed
  | voicemail
  | announcement
  | ivr
  | hold
  | busy
  | noAnswer
  | rejected
  | notFound
  | unavailable
  | failed
  | cancelled
  deriving DecidableEq

def FAST_DISCONNECT_MAX_MS : ℕ := 15000

structure CallShape where
  answered : Bool
  durationMs : ℕ
  transcriptLen : ℕ
  endedBy : EndedBy
  deriving DecidableEq

def resolveDisposition (cancelled : Bool) (amd : Option String) (sip : Option SipOutcome)
    (shape : CallShape) : Disposition :=
  if cancelled then .cancelled
  else if !shape.answered then
    match sip with
    | some .busy => .busy
    | some .noAnswer => .noAnswer
    | some .rejected => .rejected
    | some .notFound => .notFound
    | some .unavailable => .unavailable
    | _ => .failed
  else if amd = some "voicemail" then .voicemail
  else if amd = some "announcement" then .announcement
  else if amd = some "ivr" then .ivr
  else if amd = some "hold" then .hold
  else if amd = some "live" then .completed
  else
    let fastDisconnect := (shape.endedBy = .remoteClose ∨ shape.endedBy = .callerHangup) ∧
      shape.durationMs < FAST_DISCONNECT_MAX_MS ∧ shape.transcriptLen = 0
    if fastDisconnect then .announcement
    else if 0 < shape.transcriptLen then .completed
    else .failed

theorem cancelled_of_resolveDisposition {cancelled : Bool} {amd : Option String}
    {sip : Option SipOutcome} {shape : CallShape}
    (h : resolveDisposition cancelled amd sip shape = .cancelled) : cancelled = true := by
  by_contra hc
  simp only [resolveDisposition, if_neg hc] at h
  split_ifs at h
  split at h <;> cases h

/-- Counters of one call's audio. -/
structure CallQuality where
  underruns : ℕ := 0
  starvedMs : ℕ := 0
  maxGapMs : ℕ := 0
  uplinkReceived : ℕ := 0
  uplinkLost : ℕ := 0
  uplinkReordered : ℕ := 0
  uplinkRms : ℕ := 0
  downlinkLossPct : ℚ := 0
  downlinkJitterMs : ℕ := 0
  downlinkRttMs : ℕ := 0
  deriving DecidableEq

structure CallRecord where
  callId : CallId
  number : String
  state : CallState
  transcript : List TranscriptEntry
  affect : List AffectEntry
  goal : Option Json
  error : Option String
  startedMs : ℕ
  endedMs : Option ℕ
  quality : CallQuality
  disposition : Option Disposition
  attempt : ℕ
  clientRef : Option String

abbrev Records := AList fun _ : CallId => CallRecord

structure CallStore where
  inner : Records
  maxHistory : ℕ

def CallStore.withHistoryCap (maxHistory : ℕ) : CallStore := ⟨∅, maxHistory⟩

def stripPlus : List Char → List Char
  | '+' :: ds => ds
  | ds => ds

/-- `str::parse::<u64>`: an optional `+`, then at least one digit, without overflow. -/
def parseU64 (cs : List Char) : Option ℕ :=
  if stripPlus cs ≠ [] ∧ (stripPlus cs).all Char.isDigit ∧
      Nat.ofDigitChars 10 (stripPlus cs) 0 < UInt64.size then
    some (Nat.ofDigitChars 10 (stripPlus cs) 0)
  else none

def callSeq (callId : CallId) : ℕ :=
  ((callId.toList.dropPrefix? "call-".toList).bind parseU64).getD 0

theorem parseU64_digits (n : ℕ) (hn : n < UInt64.size) : parseU64 (Nat.toDigits 10 n) = some n := by
  have hdig : ∀ c ∈ Nat.toDigits 10 n, c.isDigit := fun c hc =>
    Nat.isDigit_of_mem_toDigits (by decide) (by decide) hc
  have hplus : stripPlus (Nat.toDigits 10 n) = Nat.toDigits 10 n := by
    unfold stripPlus
    split
    · rename_i ds heq
      have := hdig '+' (by rw [heq]; exact List.mem_cons_self)
      simp at this
    · rfl
  rw [parseU64, hplus, Nat.ofDigitChars_ten_toDigits,
    if_pos ⟨Nat.toDigits_ne_nil, List.all_eq_true.mpr hdig, hn⟩]

theorem callSeq_callId (n : ℕ) (hn : n < UInt64.size) : callSeq (callId n) = n := by
  have hl : (callId n).toList = "call-".toList ++ Nat.toDigits 10 n := by
    simp [callId, Nat.toString_eq_repr, Nat.toList_repr]
  have hp : (callId n).toList.dropPrefix? "call-".toList = some (Nat.toDigits 10 n) := by
    rw [hl]; exact List.dropPrefix?_append_of_beq _ (by simp)
  rw [callSeq, hp]
  simp [parseU64_digits n hn]

/-- `call-N` with a number that `callSeq` reads back. -/
def Numbered (id : CallId) : Prop := ∃ n, n < UInt64.size ∧ id = callId n

theorem callSeq_inj {a b : CallId} (ha : Numbered a) (hb : Numbered b)
    (h : callSeq a = callSeq b) : a = b := by
  obtain ⟨m, hm, rfl⟩ := ha
  obtain ⟨n, hn, rfl⟩ := hb
  rw [callSeq_callId m hm, callSeq_callId n hn] at h
  rw [h]

namespace CallStore

def get (s : CallStore) (id : CallId) : Option CallRecord := s.inner.lookup id

def insert (s : CallStore) (rec : CallRecord) : CallStore :=
  { s with inner := s.inner.insert rec.callId rec }

/-- The `get_mut` pattern of every setter: an absent record is left absent. -/
def modify (s : CallStore) (id : CallId) (f : CallRecord → CallRecord) : CallStore :=
  match s.inner.lookup id with
  | some r => { s with inner := s.inner.insert id (f r) }
  | none => s

def setState (s : CallStore) (id : CallId) (state : CallState) : CallStore :=
  s.modify id fun r => { r with state }

def appendTranscript (s : CallStore) (id : CallId) (entry : TranscriptEntry) : CallStore :=
  s.modify id fun r => { r with transcript := r.transcript ++ [entry] }

def appendAffect (s : CallStore) (id : CallId) (entry : AffectEntry) : CallStore :=
  s.modify id fun r => { r with affect := r.affect ++ [entry] }

def setTranscript (s : CallStore) (id : CallId) (transcript : List TranscriptEntry) : CallStore :=
  s.modify id fun r => { r with transcript }

def setQuality (s : CallStore) (id : CallId) (quality : CallQuality) : CallStore :=
  s.modify id fun r => { r with quality }

def endedIds (m : Records) : List (ℕ × CallId) :=
  (m.entries.filter fun e => e.2.state = .ended).map fun e => (callSeq e.1, e.1)

/-- The ended records over the cap, smallest number first. -/
def overCap (m : Records) (maxHistory : ℕ) : List CallId :=
  if maxHistory = 0 then []
  else if (endedIds m).length ≤ maxHistory then []
  else (((endedIds m).insertionSort fun a b => a.1 ≤ b.1).take
    ((endedIds m).length - maxHistory)).map (·.2)

def evictEndedOverCap (m : Records) (maxHistory : ℕ) : Records :=
  (overCap m maxHistory).foldl (fun m k => m.erase k) m

def finalize (s : CallStore) (id : CallId) (disposition : Disposition) (goal : Option Json)
    (error : Option String) (endedMs : ℕ) : CallStore :=
  let s' := s.modify id fun r =>
    { r with state := .ended, disposition := some disposition, goal, error,
             endedMs := some endedMs }
  { s' with inner := evictEndedOverCap s'.inner s'.maxHistory }

/-! What each operation does to a lookup. -/

@[simp] theorem get_withHistoryCap (c : ℕ) (id : CallId) : (withHistoryCap c).get id = none := by
  simp [get, withHistoryCap]

theorem get_insert (s : CallStore) (rec : CallRecord) (id : CallId) :
    (s.insert rec).get id = if id = rec.callId then some rec else s.get id := by
  unfold get insert
  split_ifs with h
  · subst h; exact AList.lookup_insert _
  · exact AList.lookup_insert_ne h

theorem get_modify (s : CallStore) (id : CallId) (f : CallRecord → CallRecord) (k : CallId) :
    (s.modify id f).get k = if k = id then (s.get k).map f else s.get k := by
  unfold modify get
  split
  · rename_i r hr
    split_ifs with h
    · subst h; simp [hr]
    · exact AList.lookup_insert_ne h
  · rename_i hr
    split_ifs with h
    · subst h; simp [hr]
    · rfl

theorem isSome_get_modify (s : CallStore) (k : CallId) (f : CallRecord → CallRecord) (id : CallId) :
    ((s.modify k f).get id).isSome = (s.get id).isSome := by
  rw [get_modify]
  split_ifs
  · exact Option.isSome_map
  · rfl

@[simp] theorem modify_maxHistory (s : CallStore) (id : CallId) (f : CallRecord → CallRecord) :
    (s.modify id f).maxHistory = s.maxHistory := by
  unfold modify; split <;> rfl

theorem lookup_foldl_erase (ks : List CallId) (m : Records) (k : CallId) :
    (ks.foldl (fun m k => m.erase k) m).lookup k = if k ∈ ks then none else m.lookup k := by
  induction ks generalizing m with
  | nil => simp
  | cons a ks ih =>
    rw [List.foldl_cons, ih]
    by_cases hk : k ∈ ks
    · simp [hk]
    · by_cases ha : k = a
      · subst ha; simp [hk]
      · simp [hk, ha, AList.lookup_erase_ne ha]

theorem lookup_evict (m : Records) (c : ℕ) (k : CallId) :
    (evictEndedOverCap m c).lookup k = if k ∈ overCap m c then none else m.lookup k :=
  lookup_foldl_erase _ _ _

theorem mem_endedIds {m : Records} {n : ℕ} {k : CallId} :
    (n, k) ∈ endedIds m ↔ n = callSeq k ∧ ∃ r, m.lookup k = some r ∧ r.state = .ended := by
  simp only [endedIds, List.mem_map, List.mem_filter, decide_eq_true_eq, Prod.mk.injEq]
  constructor
  · rintro ⟨⟨k', r⟩, ⟨hm, hr⟩, rfl, rfl⟩
    exact ⟨rfl, r, AList.mem_lookup_iff.mpr hm, hr⟩
  · rintro ⟨rfl, r, hl, hr⟩
    exact ⟨⟨k, r⟩, ⟨AList.mem_lookup_iff.mp hl, hr⟩, rfl, rfl⟩

theorem endedIds_nodup (m : Records) : ((endedIds m).map (·.2)).Nodup := by
  rw [endedIds, List.map_map]
  exact m.nodupKeys.sublist List.filter_sublist

/-- Only ended records are evicted. -/
theorem ended_of_mem_overCap {m : Records} {c : ℕ} {k : CallId} (h : k ∈ overCap m c) :
    ∃ r, m.lookup k = some r ∧ r.state = .ended := by
  rw [overCap] at h
  split at h
  · simp at h
  split at h
  · simp at h
  obtain ⟨⟨n, k'⟩, hmem, rfl⟩ := List.mem_map.mp h
  have hin := (List.mem_insertionSort _).mp (List.mem_of_mem_take hmem)
  exact (mem_endedIds.mp hin).2

def endedSorted (m : Records) : List (ℕ × CallId) := (endedIds m).insertionSort fun a b => a.1 ≤ b.1

theorem mem_endedSorted {m : Records} {x : ℕ × CallId} : x ∈ endedSorted m ↔ x ∈ endedIds m :=
  List.mem_insertionSort _

theorem length_endedSorted (m : Records) : (endedSorted m).length = (endedIds m).length :=
  List.length_insertionSort _ _

theorem overCap_eq {m : Records} {c : ℕ} (hc : 1 ≤ c) :
    overCap m c = ((endedSorted m).take ((endedIds m).length - c)).map (·.2) := by
  rw [overCap, if_neg (by omega)]
  split_ifs with hle
  · rw [Nat.sub_eq_zero_of_le hle]
    rfl
  · rfl

theorem overCap_succ {m : Records} {c : ℕ} (hc : 1 ≤ c) (hlen : (endedIds m).length = c + 1) :
    ∃ w, overCap m c = [w] ∧ (∃ r, m.lookup w = some r ∧ r.state = .ended) ∧
      ∀ k r, m.lookup k = some r → r.state = .ended → callSeq w ≤ callSeq k := by
  have hover : overCap m c = ((endedSorted m).take 1).map (·.2) := by
    rw [overCap_eq hc, hlen, Nat.add_sub_cancel_left]
  have hmem : ∀ x, x ∈ endedSorted m ↔ x ∈ endedIds m := fun x => mem_endedSorted
  have hsorted : (endedSorted m).Pairwise fun a b => a.1 ≤ b.1 := List.pairwise_insertionSort ..
  have hlen' := length_endedSorted m
  cases hs : endedSorted m with
  | nil => rw [hs, hlen] at hlen'; simp at hlen'
  | cons x xs =>
    rw [hs] at hover hmem hsorted
    obtain ⟨hseq, hx⟩ := mem_endedIds.mp ((hmem (x.1, x.2)).mp List.mem_cons_self)
    refine ⟨x.2, by simpa using hover, hx, fun k r hk hr => ?_⟩
    have hkm : (callSeq k, k) ∈ x :: xs := (hmem _).mpr (mem_endedIds.mpr ⟨rfl, r, hk, hr⟩)
    rcases List.mem_cons.mp hkm with he | htail
    · rw [← he]
    · have := (List.pairwise_cons.mp hsorted).1 _ htail
      omega

theorem overCap_within {m : Records} {c : ℕ} (h : (endedIds m).length ≤ c) :
    overCap m c = [] := by
  rw [overCap, if_pos h, ite_self]

end CallStore

/-- What `finalize` was called with. -/
structure Ending where
  id : CallId
  disposition : Disposition
  goal : Option Json
  error : Option String
  endedMs : ℕ

def Ending.mark (e : Ending) (r : CallRecord) : CallRecord :=
  { r with state := .ended, disposition := some e.disposition, goal := e.goal, error := e.error,
           endedMs := some e.endedMs }

inductive StoreOp where
  | insert (rec : CallRecord)
  | setState (id : CallId) (state : CallState)
  | appendTranscript (id : CallId) (entry : TranscriptEntry)
  | appendAffect (id : CallId) (entry : AffectEntry)
  | setTranscript (id : CallId) (transcript : List TranscriptEntry)
  | setQuality (id : CallId) (quality : CallQuality)
  | finalize (e : Ending)

def StoreOp.apply (s : CallStore) : StoreOp → CallStore
  | .insert rec => s.insert rec
  | .setState id state => s.setState id state
  | .appendTranscript id entry => s.appendTranscript id entry
  | .appendAffect id entry => s.appendAffect id entry
  | .setTranscript id transcript => s.setTranscript id transcript
  | .setQuality id quality => s.setQuality id quality
  | .finalize e => s.finalize e.id e.disposition e.goal e.error e.endedMs

theorem CallStore.get_finalize_eq (s : CallStore) (e : Ending) (k : CallId) :
    ((StoreOp.finalize e).apply s).get k = if k ∈ overCap (s.modify e.id e.mark).inner s.maxHistory then none
      else (s.modify e.id e.mark).get k := by
  rw [← modify_maxHistory s e.id e.mark]
  exact lookup_evict _ _ _

end Kutsu
