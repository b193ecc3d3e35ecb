import Mathlib.Tactic.Common

/-! The values the engine, the SIP leg and the Gemini leg pass to one another. -/

namespace Kutsu

/-- `serde_json::Value`; a number keeps its literal text. -/
inductive Json where
  | null
  | bool (b : Bool)
  | num (text : String)
  | str (s : String)
  | arr (xs : List Json)
  | obj (fields : List (String × Json))

def Json.get (key : String) : Json → Option Json
  | .obj fields => (fields.find? fun f => f.1 = key).map (·.2)
  | _ => none

def Json.asStr : Json → Option String
  | .str s => some s
  | _ => none

abbrev CallId := String

/-- The id `place_call_at` mints for its `n`-th call. -/
def callId (n : ℕ) : CallId := "call-" ++ toString n

theorem callId_injective {m n : ℕ} (h : callId m = callId n) : m = n := by
  have hl := congrArg String.toList h
  simp only [callId, String.toList_append, List.append_cancel_left_eq,
    Nat.toString_eq_repr, Nat.toList_repr] at hl
  have hd := congrArg (fun ds => Nat.ofDigitChars 10 ds 0) hl
  simpa only [Nat.ofDigitChars_ten_toDigits] using hd

inductive Role where
  | user
  | model
  deriving DecidableEq

structure TranscriptEntry where
  role : Role
  text : String
  tsMs : ℕ
  deriving DecidableEq

structure AffectEntry where
  role : Role
  label : String
  tsMs : ℕ
  deriving DecidableEq

inductive EndedBy where
  | modelEndCall
  | callerHangup
  | remoteClose
  | error
  deriving DecidableEq

/-- Terminal outcome of one dial attempt, from the SIP status. -/
inductive SipOutcome where
  | completed
  | busy
  | noAnswer
  | rejected
  | notFound
  | unavailable
  | failed
  deriving DecidableEq

inductive TermReason where
  | remoteHangup
  | localHangup
  | failed (outcome : SipOutcome) (detail : String)
  deriving DecidableEq

structure ScenarioConfig where
  goalSchema : Json
  context : Option Json
  promptOverride : Option String

end Kutsu
