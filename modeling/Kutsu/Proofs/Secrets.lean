import Kutsu.Model.MainSupport

/-! Where a process's secrets come from. The overlay replaces the proxy and the SIP password
only if their variables are set, so that a file's own secrets show through where they are
not. -/

namespace Kutsu

/-- The file's settings without its secrets. -/
def Config.redact (c : Config) : Config where
  server := { c.server with apiKey := "", proxy := none }
  sip := { c.sip with password := "" }

namespace Env

variable {env : Env} {ps : Parsers} {apiKey : String}

theorem overStr_inj {k a b : String} : env.overStr k a = env.overStr k b ↔ (env k).isSome = true ∨ a = b := by
  unfold overStr
  cases env k with
  | none => simp
  | some v => simp

theorem overProxy_inj {a b : Option Proxy} :
    env.overProxy a = env.overProxy b ↔ (env.nonEmpty "PROXY_URL").isSome = true ∨ a = b := by
  unfold overProxy
  cases env.nonEmpty "PROXY_URL" with
  | none => simp
  | some url => simp

/-- Of the file's secrets the overlay looks at the proxy alone. -/
theorem overServer_redact (c : Config) : env.overServer ps apiKey c.server =
    { env.overServer ps apiKey c.redact.server with proxy := env.overProxy c.server.proxy } := rfl

theorem overSip_redact (c : Config) : env.overSip ps c.sip =
    { env.overSip ps c.redact.sip with password := env.overStr "KUTSU_SIP_PASS" c.sip.password } := rfl

theorem overlay_inj {c₁ c₂ : Config} (h : c₁.redact = c₂.redact) :
    (env.overServer ps apiKey c₁.server, env.overSip ps c₁.sip) =
      (env.overServer ps apiKey c₂.server, env.overSip ps c₂.sip) ↔
    env.overProxy c₁.server.proxy = env.overProxy c₂.server.proxy ∧
      env.overStr "KUTSU_SIP_PASS" c₁.sip.password = env.overStr "KUTSU_SIP_PASS" c₂.sip.password := by
  constructor
  · intro heq
    obtain ⟨hserver, hsip⟩ := Prod.mk.inj heq
    exact ⟨congrArg ServerConfig.proxy hserver, congrArg SipConfig.password hsip⟩
  · rintro ⟨hproxy, hpass⟩
    rw [overServer_redact c₁, overServer_redact c₂, overSip_redact c₁, overSip_redact c₂, h, hproxy, hpass]

end Env

variable {ps : Parsers} {env : Env}

theorem configsFromEnv_parsed {read : String → Except ReadError String} {t : String} {c : Config}
    (hread : read (configPath env) = .ok t) (hparse : ps.toml t = .ok c) :
    configsFromEnv ps env read = applyEnvOverlay ps env c.server c.sip := by
  have hload : Config.load ps (configPath env) (read (configPath env)) = .ok c := by
    rw [hread, Config.load, hparse]
    rfl
  unfold configsFromEnv
  rw [hload]
  rfl

theorem applyEnvOverlay_ok {server : ServerConfig} {sip : SipConfig} {r : ServerConfig × SipConfig}
    (hr : applyEnvOverlay ps env server sip = .ok r) :
    ∃ apiKey, env "GEMINI_API_KEY" = some apiKey ∧ r = (env.overServer ps apiKey server, env.overSip ps sip) := by
  unfold applyEnvOverlay at hr
  split at hr
  · rename_i apiKey hkey
    exact ⟨apiKey, hkey, (Except.ok.inj hr).symm⟩
  · cases hr

/-- Two files that differ in their secrets only give the same settings exactly when each
secret they differ in is replaced from the environment. -/
theorem configs_eq_iff {read₁ read₂ : String → Except ReadError String} {t₁ t₂ : String} {c₁ c₂ : Config}
    {r₁ r₂ : ServerConfig × SipConfig} (hread₁ : read₁ (configPath env) = .ok t₁)
    (hread₂ : read₂ (configPath env) = .ok t₂) (hparse₁ : ps.toml t₁ = .ok c₁) (hparse₂ : ps.toml t₂ = .ok c₂)
    (hsame : c₁.redact = c₂.redact) (hr₁ : configsFromEnv ps env read₁ = .ok r₁)
    (hr₂ : configsFromEnv ps env read₂ = .ok r₂) :
    r₁ = r₂ ↔ ((env.nonEmpty "PROXY_URL").isSome = true ∨ c₁.server.proxy = c₂.server.proxy) ∧
      ((env "KUTSU_SIP_PASS").isSome = true ∨ c₁.sip.password = c₂.sip.password) := by
  rw [configsFromEnv_parsed hread₁ hparse₁] at hr₁
  rw [configsFromEnv_parsed hread₂ hparse₂] at hr₂
  obtain ⟨k₁, hk₁, rfl⟩ := applyEnvOverlay_ok hr₁
  obtain ⟨k₂, hk₂, rfl⟩ := applyEnvOverlay_ok hr₂
  obtain rfl := Option.some.inj (hk₁.symm.trans hk₂)
  rw [Env.overlay_inj hsame, Env.overProxy_inj, Env.overStr_inj]

/-- A file that holds secrets, and what it parses to. -/
def secretFile : String := "[server.proxy]\nurl = \"http://proxy:3128\"\n[sip]\npassword = \"hunter2\"\n"

def secretConfig : Config where
  server := { ServerConfig.default with proxy := some { url := "http://proxy:3128" } }
  sip := { password := "hunter2" }

def tomlOnly : Parsers where
  toml s := .ok (if s = secretFile then secretConfig else {})
  f32 _ := none
  ipAddr _ := none

def readsAs (contents : String) : String → Except ReadError String := fun _ => .ok contents

def envOf (vars : List (String × String)) : Env := fun k => vars.lookup k

def fullEnv : Env :=
  envOf [("GEMINI_API_KEY", "key"), ("PROXY_URL", "http://egress:8080"), ("KUTSU_SIP_PASS", "letmein")]

def keyEnv : Env := envOf [("GEMINI_API_KEY", "key")]

theorem tomlOnly_empty : tomlOnly.toml "" = .ok {} := congrArg Except.ok (if_neg (by decide))

theorem tomlOnly_secretFile : tomlOnly.toml secretFile = .ok secretConfig := congrArg Except.ok (if_pos rfl)

theorem readsAs_apply (t path : String) : readsAs t path = .ok t := rfl

theorem configsFromEnv_readsAs {t apiKey : String} {c : Config} (hparse : ps.toml t = .ok c)
    (hkey : env "GEMINI_API_KEY" = some apiKey) :
    configsFromEnv ps env (readsAs t) = .ok (env.overServer ps apiKey c.server, env.overSip ps c.sip) := by
  rw [configsFromEnv_parsed (readsAs_apply t _) hparse, applyEnvOverlay, hkey]

theorem configs_eq_full : ∃ r₁ r₂, configsFromEnv tomlOnly fullEnv (readsAs "") = .ok r₁ ∧
    configsFromEnv tomlOnly fullEnv (readsAs secretFile) = .ok r₂ ∧ r₁ = r₂ := by
  have hkey : fullEnv "GEMINI_API_KEY" = some "key" := rfl
  have hr₁ := configsFromEnv_readsAs tomlOnly_empty hkey
  have hr₂ := configsFromEnv_readsAs tomlOnly_secretFile hkey
  refine ⟨_, _, hr₁, hr₂, ?_⟩
  exact (configs_eq_iff (readsAs_apply "" _) (readsAs_apply secretFile _) tomlOnly_empty tomlOnly_secretFile rfl
    hr₁ hr₂).mpr ⟨.inl rfl, .inl rfl⟩

/-- With the API key alone in the environment the file's proxy and password are used. -/
theorem configs_differ : ∃ r₁ r₂, configsFromEnv tomlOnly keyEnv (readsAs "") = .ok r₁ ∧
    configsFromEnv tomlOnly keyEnv (readsAs secretFile) = .ok r₂ ∧
    (r₁.1.proxy = none ∧ r₁.2.password = "") ∧
    (r₂.1.proxy = some { url := "http://proxy:3128" } ∧ r₂.2.password = "hunter2") :=
  ⟨_, _, configsFromEnv_readsAs tomlOnly_empty rfl, configsFromEnv_readsAs tomlOnly_secretFile rfl,
    ⟨rfl, rfl⟩, rfl, rfl⟩

end Kutsu
