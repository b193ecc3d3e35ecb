import Mathlib.Algebra.Group.Nat.Defs
import Mathlib.Data.Rat.Defs
import Kutsu.Model.Breaker
import Kutsu.Model.Types

/-! The settings (`config.rs`), and the preflight's own limits (`net_check.rs`). -/

namespace Kutsu

inductive Model where
  | halfCascade
  | nativeAudio
  deriving DecidableEq

inductive Gender where
  | male
  | female
  | neutral
  deriving DecidableEq

structure Proxy where
  url : String
  user : Option String := none
  password : Option String := none
  deriving DecidableEq

structure QualityConfig where
  prebufferMs : ℕ := 800
  resumeMs : ℕ := 400
  abortUnderruns : ℕ := 40

structure RetryConfig where
  busyMaxAttempts : ℕ := 3
  busyRetryIntervalMs : ℕ := 300000

structure VadConfig where
  minRms : ℕ := 200
  ratio : ℚ := 3
  onsetFrames : ℕ := 3
  warmupFrames : ℕ := 10

structure AgcConfig where
  enabled : Bool := true
  targetDbfs : ℚ := -18
  maxGainDb : ℚ := 30
  noiseFloorRms : ℚ := 200

structure NetCheckConfig where
  enabled : Bool := true
  samples : ℕ := 10
  maxRttMs : ℕ := 300
  maxJitterMs : ℕ := 50
  maxLossPct : ℚ := 2
  uplinkLossAbortPct : ℚ := 10
  downlinkLossAbortPct : ℚ := 10
  warmupPings : ℕ := 1
  maxSetupMs : ℕ := 2500
  retryMax : ℕ := 3
  retryBackoffBaseMs : ℕ := 5000
  breakerThreshold : ℕ := 3
  cooldownMs : ℕ := 60000

def BASE_SYSTEM_PROMPT : String :=
  "You are a helpful voice agent making a phone call. Speak naturally and conversationally, " ++
  "keep your replies short, and stay on task."

def GOAL_PREAMBLE : String :=
  "\n\n# Your objective\nDuring this call, pursue and gather the information described by the " ++
  "schema below, steering the conversation toward it naturally. When the objective is met (or " ++
  "clearly cannot be), submit your findings by calling the `end_call` tool with a value " ++
  "matching this JSON Schema. The schema is a PRIVATE report format for the system: use it to " ++
  "know what to collect and how to shape the tool call, but NEVER read the field names, the " ++
  "schema, or their values aloud to the other party.\n"

def CLOSING_INSTRUCTION : String :=
  "\n\n# Ending the call\nWhen the conversation is finished - you have said your goodbyes, " ++
  "agreed on a next step, or the other party firmly refuses or is rude - say ONE short, " ++
  "natural goodbye and, in the SAME turn, call the `end_call` tool. Say the goodbye only once: " ++
  "the line is played in full and then the call is hung up, so never add a second goodbye and " ++
  "do not keep talking after it."

def GREET_CUE : String :=
  "The call has connected and the other party has not " ++
  "spoken yet. Greet them now and begin the conversation as instructed."

def END_CALL_CUE : String :=
  "The line has gone quiet. If the conversation is " ++
  "finished, wrap up now and submit the result by calling the end_call tool."

def HARVEST_CUE : String :=
  "The other party has hung up; the call is over and " ++
  "they can no longer hear you. Do not try to say anything else. Submit your " ++
  "result now by calling the end_call tool with whatever information you " ++
  "gathered so far. If the objective was not completed, still call end_call and " ++
  "note in the summary that the callee hung up before it finished."

def RESUME_CUE : String :=
  "The connection dropped briefly and the last thing " ++
  "the other party said may be lost. Ask them to repeat what they just said, " ++
  "replying in the same language you have been speaking."

def GENDER_FEMALE : String :=
  "\n\n# Your voice\nYou speak with a FEMALE voice. Always refer to yourself using feminine " ++
  "grammatical forms (verbs, adjectives, participles). Never use masculine self-reference."

def GENDER_MALE : String :=
  "\n\n# Your voice\nYou speak with a MALE voice. Always refer to yourself using masculine " ++
  "grammatical forms (verbs, adjectives, participles). Never use feminine self-reference."

def LANGUAGE_TEMPLATE : String :=
  "\n\n# Language\nSpeak ONLY in the language with BCP-47 code `\x7blanguage\x7d`, always, " ++
  "from the very first word and in every single reply. You may understand the other party when " ++
  "they use another language, but you MUST always answer in `\x7blanguage\x7d`, pronouncing it " ++
  "cleanly and naturally like a native speaker, with no foreign accent."

def AMD_INSTRUCTION : String :=
  "\n\n# Detecting a non-live answer\nYou may reach something other than a live person ready " ++
  "to talk. Watch for:\n- a voicemail / answering-machine greeting (set amd=voicemail),\n- a " ++
  "carrier/operator recording such as \"the subscriber is unavailable or switched off\" (set " ++
  "amd=announcement),\n- an automated menu asking you to press or say options (set " ++
  "amd=ivr),\n- hold music, ads, or voices/chatter in the background that are not addressing " ++
  "you (set amd=hold).\nDecisive test when audio alone is ambiguous (e.g. background speech " ++
  "with no music): a LIVE person responds to you - they answer your greeting and your " ++
  "questions and take turns. If, after you greet and ask a short question, the other side does " ++
  "not engage with you (keeps talking without responding, talks over you, or ignores your " ++
  "question), treat it as NOT live. As soon as you are confident it is not a live person, do " ++
  "NOT continue the conversation: call `end_call` immediately with the matching `amd` value. " ++
  "When you did have a real back-and-forth with a person, set amd=live."

structure PromptsConfig where
  baseSystemPrompt : String := BASE_SYSTEM_PROMPT
  goalPreamble : String := GOAL_PREAMBLE
  closing : String := CLOSING_INSTRUCTION
  greetCue : String := GREET_CUE
  endCallCue : String := END_CALL_CUE
  harvestCue : String := HARVEST_CUE
  resumeCue : String := RESUME_CUE
  genderFemale : String := GENDER_FEMALE
  genderMale : String := GENDER_MALE
  languageTemplate : String := LANGUAGE_TEMPLATE
  amdInstruction : String := AMD_INSTRUCTION

/-- The channel cap is a `usize`. -/
structure ServerConfig where
  apiKey : String := ""
  proxy : Option Proxy := none
  model : Model := .halfCascade
  voice : String := "Autonoe"
  voiceGender : Gender := .female
  language : String := "en-US"
  netCheck : NetCheckConfig := {}
  maxConcurrentChannels : ℕ := 3
  maxConcurrentChannels_lt : maxConcurrentChannels < UInt64.size := by decide
  maxCallHistory : ℕ := 1000
  greetAfterSilenceMs : ℕ := 1000
  transcriptDir : Option String := none
  dumpUplinkDir : Option String := none
  dumpDownlinkDir : Option String := none
  maxCallSecs : ℕ := 600
  deadAirNudgeMs : ℕ := 25000
  wrapUpGraceMs : ℕ := 15000
  mcpPollIntervalMs : ℕ := 5000
  mcpPollIntervalMaxMs : ℕ := 30000
  quality : QualityConfig := {}
  retry : RetryConfig := {}
  vad : VadConfig := {}
  agc : AgcConfig := {}
  prompts : PromptsConfig := {}

def ServerConfig.default : ServerConfig := {}

inductive SipTransportKind where
  | udp
  | tls
  deriving DecidableEq

inductive IpAddr where
  | v4 (bits : BitVec 32)
  | v6 (bits : BitVec 128)
  deriving DecidableEq

structure SipConfig where
  server : String := ""
  username : String := ""
  password : String := ""
  fromUser : Option String := none
  localIp : Option IpAddr := none
  localPort : Option ℕ := none
  sipDomain : Option String := none
  register : Bool := false
  registerExpirySecs : Option ℕ := none
  transport : SipTransportKind := .udp

structure Config where
  server : ServerConfig := .default
  sip : SipConfig := {}

/-- `f32`'s own text for the loss is kept beside its value. -/
structure NetworkHealth where
  rttP50Ms : ℕ
  rttP95Ms : ℕ
  rttP95RawMs : ℕ
  jitterMs : ℕ
  lossPct : ℚ
  lossText : String
  connectMs : ℕ
  setupMs : ℕ

def NetworkHealth.summary (h : NetworkHealth) : String :=
  s!"rtt_p50={h.rttP50Ms}ms rtt_p95={h.rttP95Ms}ms rtt_p95_raw={h.rttP95RawMs}ms " ++
    s!"jitter={h.jitterMs}ms loss={h.lossText}% connect={h.connectMs}ms setup={h.setupMs}ms"

inductive Verdict where
  | ok
  | unusable
  deriving DecidableEq

def verdict (h : NetworkHealth) (cfg : NetCheckConfig) : Verdict :=
  if cfg.maxRttMs < h.rttP95Ms ∨ cfg.maxJitterMs < h.jitterMs ∨ cfg.maxLossPct < h.lossPct ∨
      (0 < cfg.maxSetupMs ∧ cfg.maxSetupMs < satAdd32 h.connectMs h.setupMs) then .unusable
  else .ok

def satMul64 (a b : ℕ) : ℕ := min (a * b) (UInt64.size - 1)

def retryBackoffMs (attempt baseMs : ℕ) : ℕ := satMul64 baseMs (2 ^ min (attempt - 1) 16)

def preflightMaxWindowMs (nc : NetCheckConfig) : ℕ :=
  let attempts := max nc.retryMax 1
  let backoffTotal := ((List.range (attempts - 1)).map fun i =>
    retryBackoffMs (i + 1) nc.retryBackoffBaseMs).foldl satAdd64 0
  let pingBudget := satMul64 nc.maxRttMs 4
  let pings := satAdd32 nc.samples nc.warmupPings
  let ackBudget := max pingBudget 2000
  let perAttempt := satAdd64 (satAdd64 (satMul64 pingBudget pings) ackBudget) 5000
  satAdd64 backoffTotal (satMul64 attempts perAttempt)

def shouldRetryBusy (attempt : ℕ) (cfg : RetryConfig) : Bool := attempt < cfg.busyMaxAttempts

end Kutsu
