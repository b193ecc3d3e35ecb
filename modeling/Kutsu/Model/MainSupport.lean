import Kutsu.Model.Config
import Kutsu.Model.Driver
import Kutsu.Model.Store

/-! Where a process gets its settings (`main_support.rs`, `Config::load`): the defaults, over
them `kutsu.toml`, and over that the environment. -/

namespace Kutsu

/-- `std::env::var(k).ok()`. -/
abbrev Env := String → Option String

inductive ReadError where
  | notFound
  | other (e : String)

/-- The parsers that are called and not part of the program. -/
structure Parsers where
  toml : String → Except String Config
  f32 : String → Option ℚ
  ipAddr : String → Option IpAddr

def asciiLowercase (s : String) : String := String.ofList (s.toList.map Char.toLower)

/-- `str::parse` for an unsigned integer type of so many values. -/
def parseUnsigned (size : ℕ) (s : String) : Option ℕ := (parseU64 s.toList).filter (· < size)

def Gender.parse (s : String) : Gender :=
  match asciiLowercase (trim s) with
  | "male" | "m" | "man" => .male
  | "neutral" | "none" | "n" => .neutral
  | _ => .female

def Model.parse (s : String) : Model :=
  match asciiLowercase (trim s) with
  | "half-cascade" | "half" | "halfcascade" | "cascade" => .halfCascade
  | _ => .nativeAudio

def parseBool (s : String) : Option Bool :=
  match asciiLowercase (trim s) with
  | "1" | "true" | "yes" | "on" => some true
  | "0" | "false" | "no" | "off" => some false
  | _ => none

namespace Env

variable (env : Env) (k : String)

def nonEmpty : Option String := (env k).filter fun s => s ≠ ""

/-- A field that is set to what its variable parses to, if it parses. -/
def overParsed {α : Type} (parse : String → Option α) (cur : α) : α := ((env k).bind parse).getD cur

def overStr (cur : String) : String := (env k).getD cur

def overOptStr (cur : Option String) : Option String := (env.nonEmpty k).or cur

def overU32 : ℕ → ℕ := env.overParsed k (parseUnsigned UInt32.size)

def overU64 : ℕ → ℕ := env.overParsed k (parseUnsigned UInt64.size)

def overUsize : ℕ → ℕ := env.overParsed k (parseUnsigned UInt64.size)

def overBool : Bool → Bool := env.overParsed k parseBool

def overPath : Option String → Option String := env.overOptStr k

/-- A field that is set if its variable is not empty and parses. -/
def overOpt {α : Type} (parse : String → Option α) (cur : Option α) : Option α :=
  ((env.nonEmpty k).bind parse).or cur

theorem overUsize_lt {cur : ℕ} (h : cur < UInt64.size) : env.overUsize k cur < UInt64.size := by
  unfold overUsize overParsed
  cases hp : (env k).bind (parseUnsigned UInt64.size) with
  | none => exact h
  | some n =>
    obtain ⟨s, -, hs⟩ := Option.bind_eq_some_iff.mp hp
    exact of_decide_eq_true (Option.filter_eq_some_iff.mp hs).2

def overProxy (cur : Option Proxy) : Option Proxy :=
  match env.nonEmpty "PROXY_URL" with
  | some url => some { url, user := env.nonEmpty "PROXY_USER", password := env.nonEmpty "PROXY_PASSWORD" }
  | none => cur

variable (ps : Parsers)

def overNetCheck (c : NetCheckConfig) : NetCheckConfig where
  enabled := env.overBool "KUTSU_NETCHECK_ENABLED" c.enabled
  samples := env.overU32 "KUTSU_NETCHECK_SAMPLES" c.samples
  maxRttMs := env.overU32 "KUTSU_NETCHECK_MAX_RTT_MS" c.maxRttMs
  maxJitterMs := env.overU32 "KUTSU_NETCHECK_MAX_JITTER_MS" c.maxJitterMs
  maxLossPct := env.overParsed "KUTSU_NETCHECK_MAX_LOSS_PCT" ps.f32 c.maxLossPct
  uplinkLossAbortPct := env.overParsed "KUTSU_UPLINK_LOSS_ABORT_PCT" ps.f32 c.uplinkLossAbortPct
  downlinkLossAbortPct := env.overParsed "KUTSU_DOWNLINK_LOSS_ABORT_PCT" ps.f32 c.downlinkLossAbortPct
  warmupPings := env.overU32 "KUTSU_NETCHECK_WARMUP_PINGS" c.warmupPings
  maxSetupMs := env.overU32 "KUTSU_NETCHECK_MAX_SETUP_MS" c.maxSetupMs
  retryMax := env.overU32 "KUTSU_NETCHECK_RETRY_MAX" c.retryMax
  retryBackoffBaseMs := env.overU64 "KUTSU_NETCHECK_RETRY_BACKOFF_BASE_MS" c.retryBackoffBaseMs
  breakerThreshold := env.overU32 "KUTSU_NETCHECK_BREAKER_THRESHOLD" c.breakerThreshold
  cooldownMs := env.overU64 "KUTSU_NETCHECK_COOLDOWN_MS" c.cooldownMs

def overQuality (c : QualityConfig) : QualityConfig where
  prebufferMs := env.overU32 "KUTSU_QUALITY_PREBUFFER_MS" c.prebufferMs
  resumeMs := env.overU32 "KUTSU_QUALITY_RESUME_MS" c.resumeMs
  abortUnderruns := env.overU32 "KUTSU_QUALITY_ABORT_UNDERRUNS" c.abortUnderruns

def overRetry (c : RetryConfig) : RetryConfig where
  busyMaxAttempts := env.overU32 "KUTSU_BUSY_MAX_ATTEMPTS" c.busyMaxAttempts
  busyRetryIntervalMs := env.overU64 "KUTSU_BUSY_RETRY_INTERVAL_MS" c.busyRetryIntervalMs

def overVad (c : VadConfig) : VadConfig where
  minRms := env.overU32 "KUTSU_VAD_MIN_RMS" c.minRms
  ratio := env.overParsed "KUTSU_VAD_RATIO" ps.f32 c.ratio
  onsetFrames := env.overU32 "KUTSU_VAD_ONSET_FRAMES" c.onsetFrames
  warmupFrames := env.overU32 "KUTSU_VAD_WARMUP_FRAMES" c.warmupFrames

def overAgc (c : AgcConfig) : AgcConfig where
  enabled := env.overBool "KUTSU_AGC_ENABLED" c.enabled
  targetDbfs := env.overParsed "KUTSU_AGC_TARGET_DBFS" ps.f32 c.targetDbfs
  maxGainDb := env.overParsed "KUTSU_AGC_MAX_GAIN_DB" ps.f32 c.maxGainDb
  noiseFloorRms := env.overParsed "KUTSU_AGC_NOISE_FLOOR_RMS" ps.f32 c.noiseFloorRms

def overPrompts (c : PromptsConfig) : PromptsConfig :=
  { c with
    baseSystemPrompt := env.overStr "KUTSU_SYSTEM_PROMPT" c.baseSystemPrompt
    greetCue := env.overStr "KUTSU_GREET_CUE" c.greetCue
    endCallCue := env.overStr "KUTSU_END_CALL_CUE" c.endCallCue
    harvestCue := env.overStr "KUTSU_HARVEST_CUE" c.harvestCue
    resumeCue := env.overStr "KUTSU_RESUME_CUE" c.resumeCue }

/-- The part of the overlay that is about `[server]`, with the API key it was given. -/
def overServer (apiKey : String) (c : ServerConfig) : ServerConfig where
  apiKey := apiKey
  proxy := env.overProxy c.proxy
  model := ((env "KUTSU_MODEL").map Model.parse).getD c.model
  voice := env.overStr "KUTSU_VOICE" c.voice
  voiceGender := ((env "KUTSU_VOICE_GENDER").map Gender.parse).getD c.voiceGender
  language := env.overStr "KUTSU_LANGUAGE" c.language
  netCheck := env.overNetCheck ps c.netCheck
  maxConcurrentChannels := env.overUsize "KUTSU_MAX_CONCURRENT_CHANNELS" c.maxConcurrentChannels
  maxConcurrentChannels_lt := env.overUsize_lt _ c.maxConcurrentChannels_lt
  maxCallHistory := env.overUsize "KUTSU_MAX_CALL_HISTORY" c.maxCallHistory
  greetAfterSilenceMs := env.overU64 "KUTSU_GREET_AFTER_SILENCE_MS" c.greetAfterSilenceMs
  transcriptDir := env.overPath "KUTSU_TRANSCRIPT_DIR" c.transcriptDir
  dumpUplinkDir := env.overPath "KUTSU_DUMP_UPLINK_DIR" c.dumpUplinkDir
  dumpDownlinkDir := env.overPath "KUTSU_DUMP_DOWNLINK_DIR" c.dumpDownlinkDir
  maxCallSecs := env.overU64 "KUTSU_MAX_CALL_SECS" c.maxCallSecs
  deadAirNudgeMs := env.overU64 "KUTSU_DEAD_AIR_NUDGE_MS" c.deadAirNudgeMs
  wrapUpGraceMs := env.overU64 "KUTSU_WRAP_UP_GRACE_MS" c.wrapUpGraceMs
  mcpPollIntervalMs := env.overU64 "KUTSU_MCP_POLL_INTERVAL_MS" c.mcpPollIntervalMs
  mcpPollIntervalMaxMs := env.overU64 "KUTSU_MCP_POLL_INTERVAL_MAX_MS" c.mcpPollIntervalMaxMs
  quality := env.overQuality c.quality
  retry := env.overRetry c.retry
  vad := env.overVad ps c.vad
  agc := env.overAgc ps c.agc
  prompts := env.overPrompts c.prompts

def overSip (c : SipConfig) : SipConfig :=
  { c with
    server := env.overStr "KUTSU_SIP_SERVER" c.server
    username := env.overStr "KUTSU_SIP_USER" c.username
    password := env.overStr "KUTSU_SIP_PASS" c.password
    fromUser := env.overOptStr "KUTSU_SIP_FROM_USER" c.fromUser
    sipDomain := env.overOptStr "KUTSU_SIP_DOMAIN" c.sipDomain
    localIp := env.overOpt "KUTSU_SIP_LOCAL_IP" ps.ipAddr c.localIp
    localPort := env.overOpt "KUTSU_SIP_LOCAL_PORT" (parseUnsigned UInt16.size) c.localPort
    register := env.overBool "KUTSU_SIP_REGISTER" c.register
    registerExpirySecs := env.overOpt "KUTSU_SIP_REGISTER_EXPIRY" (parseUnsigned UInt64.size) c.registerExpirySecs }

end Env

def applyEnvOverlay (ps : Parsers) (env : Env) (server : ServerConfig) (sip : SipConfig) :
    Except String (ServerConfig × SipConfig) :=
  match env "GEMINI_API_KEY" with
  | some apiKey => .ok (env.overServer ps apiKey server, env.overSip ps sip)
  | none => .error "GEMINI_API_KEY not set"

def configPath (env : Env) : String := (env "KUTSU_CONFIG").getD "kutsu.toml"

def Config.load (ps : Parsers) (path : String) (read : Except ReadError String) : Except String Config :=
  match read with
  | .ok s => (ps.toml s).mapError fun e => s!"failed to parse {path}: {e}"
  | .error .notFound => .ok {}
  | .error (.other e) => .error s!"failed to read {path}: {e}"

/-- `readToString` is the file system. -/
def configsFromEnv (ps : Parsers) (env : Env) (readToString : String → Except ReadError String) :
    Except String (ServerConfig × SipConfig) := do
  let cfg ← Config.load ps (configPath env) (readToString (configPath env))
  applyEnvOverlay ps env cfg.server cfg.sip

end Kutsu
