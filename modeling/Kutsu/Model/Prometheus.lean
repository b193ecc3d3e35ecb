import Kutsu.Model.Engine

/-! `/metrics` (`mcp_http.rs`): the engine's snapshot, one read after the other while the engine goes on, and the page
that is made of it. Which request a page answers, how many pages were done when it was made, and the snapshot behind a
page are histories that the code does not keep. -/

namespace Kutsu

structure MetricsSnapshot where
  active : ℕ := 0
  queued : ℕ := 0
  placedTotal : ℕ := 0
  completedTotal : ℕ := 0
  failedTotal : ℕ := 0
  cancelledTotal : ℕ := 0
  channelsCap : ℕ := 0
  underrunsTotal : ℕ := 0
  starvedMsTotal : ℕ := 0
  qualityAbortedTotal : ℕ := 0
  uplinkReceivedTotal : ℕ := 0
  uplinkLostTotal : ℕ := 0
  busyTotal : ℕ := 0
  noAnswerTotal : ℕ := 0
  rejectedTotal : ℕ := 0
  notFoundTotal : ℕ := 0
  unavailableTotal : ℕ := 0
  voicemailTotal : ℕ := 0
  announcementTotal : ℕ := 0
  ivrTotal : ℕ := 0
  holdTotal : ℕ := 0

inductive Metric where
  | active
  | queued
  | placedTotal
  | completedTotal
  | failedTotal
  | cancelledTotal
  | channelsCap
  | underrunsTotal
  | starvedMsTotal
  | qualityAbortedTotal
  | uplinkReceivedTotal
  | uplinkLostTotal
  | busyTotal
  | noAnswerTotal
  | rejectedTotal
  | notFoundTotal
  | unavailableTotal
  | voicemailTotal
  | announcementTotal
  | ivrTotal
  | holdTotal
  deriving DecidableEq

namespace MetricsSnapshot

def get (m : MetricsSnapshot) : Metric → ℕ
  | .active => m.active
  | .queued => m.queued
  | .placedTotal => m.placedTotal
  | .completedTotal => m.completedTotal
  | .failedTotal => m.failedTotal
  | .cancelledTotal => m.cancelledTotal
  | .channelsCap => m.channelsCap
  | .underrunsTotal => m.underrunsTotal
  | .starvedMsTotal => m.starvedMsTotal
  | .qualityAbortedTotal => m.qualityAbortedTotal
  | .uplinkReceivedTotal => m.uplinkReceivedTotal
  | .uplinkLostTotal => m.uplinkLostTotal
  | .busyTotal => m.busyTotal
  | .noAnswerTotal => m.noAnswerTotal
  | .rejectedTotal => m.rejectedTotal
  | .notFoundTotal => m.notFoundTotal
  | .unavailableTotal => m.unavailableTotal
  | .voicemailTotal => m.voicemailTotal
  | .announcementTotal => m.announcementTotal
  | .ivrTotal => m.ivrTotal
  | .holdTotal => m.holdTotal

def put (m : MetricsSnapshot) (v : ℕ) : Metric → MetricsSnapshot
  | .active => { m with active := v }
  | .queued => { m with queued := v }
  | .placedTotal => { m with placedTotal := v }
  | .completedTotal => { m with completedTotal := v }
  | .failedTotal => { m with failedTotal := v }
  | .cancelledTotal => { m with cancelledTotal := v }
  | .channelsCap => { m with channelsCap := v }
  | .underrunsTotal => { m with underrunsTotal := v }
  | .starvedMsTotal => { m with starvedMsTotal := v }
  | .qualityAbortedTotal => { m with qualityAbortedTotal := v }
  | .uplinkReceivedTotal => { m with uplinkReceivedTotal := v }
  | .uplinkLostTotal => { m with uplinkLostTotal := v }
  | .busyTotal => { m with busyTotal := v }
  | .noAnswerTotal => { m with noAnswerTotal := v }
  | .rejectedTotal => { m with rejectedTotal := v }
  | .notFoundTotal => { m with notFoundTotal := v }
  | .unavailableTotal => { m with unavailableTotal := v }
  | .voicemailTotal => { m with voicemailTotal := v }
  | .announcementTotal => { m with announcementTotal := v }
  | .ivrTotal => { m with ivrTotal := v }
  | .holdTotal => { m with holdTotal := v }

end MetricsSnapshot

def Sys.metric (cfg : ServerConfig) (s : Sys) : Metric → ℕ
  | .active => s.sh.running
  | .queued => s.sh.queue.len
  | .placedTotal => s.sh.counters.placed
  | .completedTotal => s.sh.counters.completed
  | .failedTotal => s.sh.counters.failed
  | .cancelledTotal => s.sh.counters.cancelled
  | .channelsCap => cfg.maxConcurrentChannels
  | .underrunsTotal => s.sh.counters.underruns
  | .starvedMsTotal => s.sh.counters.starvedMs
  | .qualityAbortedTotal => s.sh.counters.qualityAborted
  | .uplinkReceivedTotal => s.sh.counters.uplinkReceived
  | .uplinkLostTotal => s.sh.counters.uplinkLost
  | .busyTotal => s.sh.counters.busy
  | .noAnswerTotal => s.sh.counters.noAnswer
  | .rejectedTotal => s.sh.counters.rejected
  | .notFoundTotal => s.sh.counters.notFound
  | .unavailableTotal => s.sh.counters.unavailable
  | .voicemailTotal => s.sh.counters.voicemail
  | .announcementTotal => s.sh.counters.announcement
  | .ivrTotal => s.sh.counters.ivr
  | .holdTotal => s.sh.counters.hold

/-- The order in which `metrics_snapshot` reads. -/
def metricsSnapshot : List Metric :=
  [.active, .queued, .placedTotal, .completedTotal, .failedTotal, .cancelledTotal, .channelsCap, .underrunsTotal,
    .starvedMsTotal, .qualityAbortedTotal, .uplinkReceivedTotal, .uplinkLostTotal, .busyTotal, .noAnswerTotal,
    .rejectedTotal, .notFoundTotal, .unavailableTotal, .voicemailTotal, .announcementTotal, .ivrTotal, .holdTotal]

structure Series where
  metric : Metric
  name : String
  help : String
  kind : String

def series : List Series :=
  [⟨.active, "kutsu_calls_active", "Calls ringing or in progress.", "gauge"⟩,
    ⟨.queued, "kutsu_calls_queued", "Calls waiting for a channel.", "gauge"⟩,
    ⟨.placedTotal, "kutsu_calls_placed_total", "Calls placed since start.", "counter"⟩,
    ⟨.completedTotal, "kutsu_calls_completed_total", "Calls completed.", "counter"⟩,
    ⟨.failedTotal, "kutsu_calls_failed_total", "Calls failed (technical failures only).", "counter"⟩,
    ⟨.busyTotal, "kutsu_calls_busy_total", "Calls that ended busy (486).", "counter"⟩,
    ⟨.noAnswerTotal, "kutsu_calls_no_answer_total", "Calls with no answer (timeout/408/480).", "counter"⟩,
    ⟨.rejectedTotal, "kutsu_calls_rejected_total", "Calls rejected (603/403/6xx).", "counter"⟩,
    ⟨.notFoundTotal, "kutsu_calls_not_found_total", "Calls to a number not found (404/484).", "counter"⟩,
    ⟨.unavailableTotal, "kutsu_calls_unavailable_total", "Calls that hit a service-unavailable response (503/5xx).",
      "counter"⟩,
    ⟨.cancelledTotal, "kutsu_calls_cancelled_total", "Calls cancelled.", "counter"⟩,
    ⟨.voicemailTotal, "kutsu_calls_voicemail_total", "Calls that ended as voicemail.", "counter"⟩,
    ⟨.announcementTotal, "kutsu_calls_announcement_total", "Calls that ended as announcement.", "counter"⟩,
    ⟨.ivrTotal, "kutsu_calls_ivr_total", "Calls that ended as IVR.", "counter"⟩,
    ⟨.holdTotal, "kutsu_calls_hold_total", "Calls that ended as hold.", "counter"⟩,
    ⟨.channelsCap, "kutsu_channels_cap", "Max concurrent channels.", "gauge"⟩,
    ⟨.underrunsTotal, "kutsu_audio_underruns_total", "Audio underruns since start.", "counter"⟩,
    ⟨.starvedMsTotal, "kutsu_audio_starved_ms_total", "Total milliseconds of audio starvation.", "counter"⟩,
    ⟨.qualityAbortedTotal, "kutsu_calls_quality_aborted_total", "Calls aborted due to quality issues.", "counter"⟩,
    ⟨.uplinkReceivedTotal, "kutsu_uplink_received_total", "Uplink RTP packets received since start.", "counter"⟩,
    ⟨.uplinkLostTotal, "kutsu_uplink_lost_total", "Uplink RTP packets lost since start.", "counter"⟩]

def Series.text (r : Series) (m : MetricsSnapshot) : String :=
  "# HELP " ++ r.name ++ " " ++ r.help ++ "\n# TYPE " ++ r.name ++ " " ++ r.kind ++ "\n" ++ r.name ++ " " ++
    toString (m.get r.metric) ++ "\n"

def renderPrometheus (m : MetricsSnapshot) : String := series.foldl (fun s r => s ++ r.text m) ""

/-- A request for the page that is being served: what has been read so far. -/
structure Scrape where
  id : ℕ
  base : ℕ
  m : MetricsSnapshot := {}
  next : ℕ := 0

structure Page where
  id : ℕ
  base : ℕ
  m : MetricsSnapshot
  text : String

structure Monitor where
  sys : Sys
  scrapes : List Scrape := []
  pages : List Page := []

inductive MonitorAct where
  | engine (a : Act)
  | request
  | read (i : ℕ)

namespace Monitor

def init (cfg : ServerConfig) (clock : ℕ) : Monitor := { sys := Sys.init cfg clock }

/-- The length of the queue is read under its lock. -/
def step (cfg : ServerConfig) (w : Monitor) : MonitorAct → Option Monitor
  | .engine a => (w.sys.step cfg a).map fun sys => { w with sys }
  | .request =>
    let x := { id := w.pages.length + w.scrapes.length, base := w.pages.length }
    some { w with scrapes := w.scrapes ++ [x] }
  | .read i => do
    let x ← w.scrapes[i]?
    match metricsSnapshot[x.next]? with
    | some c =>
      if c = .queued ∧ w.sys.disp.locked = true then none
      else
        let x := { x with m := x.m.put (w.sys.metric cfg c) c, next := x.next + 1 }
        some { w with scrapes := w.scrapes.set i x }
    | none =>
      let p := ⟨x.id, x.base, x.m, renderPrometheus x.m⟩
      some { w with scrapes := w.scrapes.eraseIdx i, pages := w.pages ++ [p] }

end Monitor

end Kutsu
