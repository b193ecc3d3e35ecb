import Kutsu.Model.Engine

/-! `transcript_dir` over the lifetimes of the engine's process (`engine.rs`). A new process starts
with `Engine::new`, while the directory stays. What was written, and by which process, is a history
that the code does not keep. -/

namespace Kutsu

/-- A file's record, and the process that wrote it. -/
structure Stored where
  lifetime : ℕ
  record : CallRecord

def fileName (id : CallId) : String := id ++ ".json"

def Obs.record? : Obs → Option CallRecord
  | .persisted rec => some rec
  | _ => none

structure World where
  cfg : ServerConfig
  sys : Sys
  lifetime : ℕ := 0
  disk : AList fun _ : String => Stored := ∅
  written : List Stored := []

inductive WorldAct where
  | act (a : Act)
  /-- the process ends at any point, and another one is started -/
  | restart (cfg : ServerConfig) (clock : ℕ)

namespace World

def init (cfg : ServerConfig) (clock : ℕ) : World := { cfg, sys := Sys.init cfg clock }

/-- `write_owner_only`: the file is created, or truncated if there is one. -/
def write (w : World) (rec : CallRecord) : World :=
  { w with disk := w.disk.insert (fileName rec.callId) ⟨w.lifetime, rec⟩
           written := w.written ++ [⟨w.lifetime, rec⟩] }

/-- All processes are given the same directory. -/
def step (dir : String) (w : World) : WorldAct → Option World
  | .act a => do
    let sys ← w.sys.step w.cfg a
    some (((sys.sh.log.drop w.sys.sh.log.length).filterMap Obs.record?).foldl write { w with sys })
  | .restart cfg clock =>
    if cfg.transcriptDir = some dir then
      some { w with cfg, sys := Sys.init cfg clock, lifetime := w.lifetime + 1 }
    else none

end World

end Kutsu
