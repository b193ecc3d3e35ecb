import Kutsu.Lib.Exposition
import Kutsu.Model.Prometheus
import Kutsu.Proofs.Lifecycle

/-! The page of the metrics: a scraper reads back what was put on it, and no counter it has seen goes down. -/

namespace Kutsu

open Runs Exposition

namespace Series

def items (r : Series) (m : MetricsSnapshot) : List Item :=
  [.help r.name.toList r.help.toList, .type r.name.toList r.kind.toList, .sample r.name.toList (m.get r.metric)]

theorem toList_lines (name help kind : String) (v : ℕ) :
    ("# HELP " ++ name ++ " " ++ help ++ "\n# TYPE " ++ name ++ " " ++ kind ++ "\n" ++ name ++ " " ++ toString v ++
        "\n").toList =
      render [.help name.toList help.toList, .type name.toList kind.toList, .sample name.toList v] := by
  have hhelp : "# HELP ".toList = helpHead := by decide
  have htype : "\n# TYPE ".toList = '\n' :: typeHead := by decide
  have hblank : " ".toList = [' '] := by decide
  have hline : "\n".toList = ['\n'] := by decide
  rw [Nat.toString_eq_repr]
  simp only [String.toList_append, hhelp, htype, hblank, hline, Nat.toList_repr, render, List.flatMap_cons,
    List.flatMap_nil, Item.line, List.append_assoc, List.cons_append, List.nil_append, List.append_nil]

theorem toList_text (r : Series) (m : MetricsSnapshot) : (r.text m).toList = render (r.items m) :=
  toList_lines r.name r.help r.kind (m.get r.metric)

end Series

theorem toList_renderPrometheus (m : MetricsSnapshot) :
    (renderPrometheus m).toList = render (series.flatMap fun r => r.items m) := by
  have hfold : ∀ (rows : List Series) (s : String),
      (rows.foldl (fun s r => s ++ r.text m) s).toList = s.toList ++ render (rows.flatMap fun r => r.items m) := by
    intro rows
    induction rows with
    | nil => intro s; simp [render]
    | cons r rows ih =>
      intro s
      rw [List.foldl_cons, ih, String.toList_append, Series.toList_text, List.flatMap_cons]
      simp [render]
  rw [renderPrometheus, hfold series ""]
  rfl

theorem series_wellFormed (m : MetricsSnapshot) : ∀ i ∈ series.flatMap fun r => r.items m, i.WellFormed := by
  intro i hi
  obtain ⟨r, hr, hi⟩ := List.mem_flatMap.mp hi
  have hrow : ∀ r ∈ series, ' ' ∉ r.name.toList ∧ '\n' ∉ r.name.toList ∧ r.name.toList.head? ≠ some '#' ∧
      '\n' ∉ r.help.toList ∧ '\n' ∉ r.kind.toList := by decide +kernel
  obtain ⟨hblank, hline, hhash, hhelp, hkind⟩ := hrow r hr
  simp only [Series.items, List.mem_cons, List.not_mem_nil, or_false] at hi
  rcases hi with rfl | rfl | rfl
  · exact ⟨hblank, hline, hhelp⟩
  · exact ⟨hblank, hline, hkind⟩
  · exact ⟨hblank, hline, hhash⟩

theorem parse_renderPrometheus (m : MetricsSnapshot) :
    parse (renderPrometheus m).toList = some (series.flatMap fun r => r.items m) := by
  rw [toList_renderPrometheus, parse_render (series_wellFormed m)]

def Page.scraped (p : Page) (name : String) : Option ℕ :=
  (parse p.text.toList).bind fun items => value items name.toList

theorem Page.scraped_of_text {p : Page} (htext : p.text = renderPrometheus p.m) {r : Series} (hr : r ∈ series) :
    p.scraped r.name = some (p.m.get r.metric) := by
  have hnodup : (series.map fun r => r.name.toList).Nodup := by decide +kernel
  have hits : ∀ (r : Series) n, value (r.items p.m) n =
      if r.name.toList = n then some (p.m.get r.metric) else none := by
    intro r n
    by_cases h : r.name.toList = n
    all_goals simp [value, Series.items, h]
  rw [Page.scraped, htext, parse_renderPrometheus, Option.bind_some]
  exact value_flatMap hits hnodup hr

/-- The fields that may go down. -/
def Metric.gauge : Metric → Bool
  | .active | .queued | .channelsCap => true
  | _ => false

namespace MetricsSnapshot

variable {m : MetricsSnapshot} {v : ℕ} {c d : Metric}

theorem get_put_self (m : MetricsSnapshot) (v : ℕ) (c : Metric) : (m.put v c).get c = v := by
  cases c <;> rfl

theorem get_put_of_ne (h : d ≠ c) : (m.put v c).get d = m.get d := by
  cases c <;> cases d <;> first | rfl | exact absurd rfl h

end MetricsSnapshot

theorem Shared.counters_mono (sh : Shared) (eff : Effect) :
    (sh.apply eff).counters = sh.counters ∨ (∃ d, (sh.apply eff).counters = sh.counters.bumpDisposition d) ∨
      (∃ q, (sh.apply eff).counters = sh.counters.addTotals q) ∨
      (sh.apply eff).counters = { sh.counters with placed := sh.counters.placed + 1 } ∨
      (sh.apply eff).counters = { sh.counters with qualityAborted := sh.counters.qualityAborted + 1 } := by
  cases eff with
  | bump id d => exact Or.inr (Or.inl ⟨d, rfl⟩)
  | addTotals q => exact Or.inr (Or.inr (Or.inl ⟨q, rfl⟩))
  | countPlaced => exact Or.inr (Or.inr (Or.inr (Or.inl rfl)))
  | qualityAborted => exact Or.inr (Or.inr (Or.inr (Or.inr rfl)))
  | register | dropGuard | send => exact Or.inl (rewired_apply sh rfl).counters
  | _ => exact Or.inl rfl

namespace Sys

variable {cfg : ServerConfig} {s s' : Sys} {a : Act} {c : Metric}

theorem metric_of_counters (h : s'.sh.counters = s.sh.counters) (hc : c.gauge = false) :
    s'.metric cfg c = s.metric cfg c := by
  cases c with
  | active | queued | channelsCap => cases hc
  | _ => simp only [metric, h]

theorem metric_le_of_counters {q : CallQuality} {d : Disposition}
    (h : s'.sh.counters = s.sh.counters.bumpDisposition d ∨ s'.sh.counters = s.sh.counters.addTotals q ∨
      s'.sh.counters = { s.sh.counters with placed := s.sh.counters.placed + 1 } ∨
      s'.sh.counters = { s.sh.counters with qualityAborted := s.sh.counters.qualityAborted + 1 })
    (hc : c.gauge = false) : s.metric cfg c ≤ s'.metric cfg c := by
  rcases h with h | h | h | h
  · cases d
    all_goals
      cases c
      all_goals first | (simp only [metric, h, Counters.bumpDisposition]; omega) | cases hc
  all_goals
    cases c
    all_goals first | (simp only [metric, h, Counters.addTotals]; omega) | cases hc

theorem metric_mono (h : Step cfg s a s') (hc : c.gauge = false) : s.metric cfg c ≤ s'.metric cfg c := by
  rcases h.shared with ⟨eff, hsh⟩ | ⟨now, hsh⟩
  · rcases s.sh.counters_mono eff with h | ⟨d, h⟩ | ⟨q, h⟩ | h | h
    · exact (metric_of_counters (by rw [hsh, h]) hc).ge
    · exact metric_le_of_counters (q := {}) (Or.inl (by rw [hsh, h])) hc
    · exact metric_le_of_counters (d := .failed) (Or.inr (Or.inl (by rw [hsh, h]))) hc
    · exact metric_le_of_counters (q := {}) (d := .failed) (Or.inr (Or.inr (Or.inl (by rw [hsh, h])))) hc
    · exact metric_le_of_counters (q := {}) (d := .failed) (Or.inr (Or.inr (Or.inr (by rw [hsh, h])))) hc
  · exact (metric_of_counters (by rw [hsh]) hc).ge

end Sys

namespace Monitor

variable {cfg : ServerConfig} {w w' : Monitor} {act : MonitorAct} {clock : ℕ} {tr : List MonitorAct}

/-- The request with this number reads the field, and the engine has `v` there. -/
def Reads (cfg : ServerConfig) (id : ℕ) (c : Metric) (v : ℕ) (w : Monitor) (act : MonitorAct) : Prop :=
  ∃ i x, act = .read i ∧ w.scrapes[i]? = some x ∧ x.id = id ∧ metricsSnapshot[x.next]? = some c ∧
    w.sys.metric cfg c = v

/-- The request is told apart from all others by its number. -/
def Numbered (w : Monitor) : Prop :=
  (w.pages.map Page.id ++ w.scrapes.map Scrape.id).Perm (List.range (w.pages.length + w.scrapes.length))

/-- What the snapshots hold: each field was read for them, nothing is above what the engine has now, and nothing below
the pages that were done when they were begun. -/
structure Kept (cfg : ServerConfig) (clock : ℕ) (tr : List MonitorAct) (w : Monitor) : Prop where
  text : ∀ p ∈ w.pages, p.text = renderPrometheus p.m
  seen : ∀ p ∈ w.pages, ∀ c, Once (step cfg) (init cfg clock) (Reads cfg p.id c (p.m.get c)) tr
  below : ∀ p ∈ w.pages, ∀ c : Metric, c.gauge = false → p.m.get c ≤ w.sys.metric cfg c
  based : ∀ p ∈ w.pages, p.base ≤ w.pages.length
  order : ∀ q ∈ w.pages, ∀ i p, w.pages[i]? = some p → i < q.base → ∀ c : Metric, c.gauge = false →
    p.m.get c ≤ q.m.get c
  base : ∀ x ∈ w.scrapes, x.base ≤ w.pages.length
  fields : ∀ x ∈ w.scrapes, ∀ c ∈ metricsSnapshot.take x.next,
    Once (step cfg) (init cfg clock) (Reads cfg x.id c (x.m.get c)) tr
  read : ∀ x ∈ w.scrapes, ∀ c ∈ metricsSnapshot.take x.next, c.gauge = false → x.m.get c ≤ w.sys.metric cfg c ∧
    ∀ i p, w.pages[i]? = some p → i < x.base → p.m.get c ≤ x.m.get c
  numbered : w.Numbered

theorem kept_init (cfg : ServerConfig) (clock : ℕ) : Kept cfg clock [] (init cfg clock) where
  text _ h := by cases h
  seen _ h := by cases h
  below _ h := by cases h
  based _ h := by cases h
  order _ h := by cases h
  base _ h := by cases h
  fields _ h := by cases h
  read _ h := by cases h
  numbered := List.Perm.refl _

theorem Kept.snoc (hk : Kept cfg clock tr w) (act : MonitorAct) : Kept cfg clock (tr ++ [act]) w :=
  { hk with
    seen := fun p hp c => (hk.seen p hp c).snoc act
    fields := fun x hx c hc => (hk.fields x hx c hc).snoc act }

theorem Kept.request (hk : Kept cfg clock tr w) :
    Kept cfg clock tr
      { w with scrapes := w.scrapes ++ [{ id := w.pages.length + w.scrapes.length, base := w.pages.length }] } := by
  refine { hk with
    base := fun x hx => ?_, fields := fun x hx c hc => ?_, read := fun x hx c hc hg => ?_, numbered := ?_ }
  · rcases List.mem_append.mp hx with hx | hx
    · exact hk.base x hx
    · rw [List.mem_singleton.mp hx]
  · rcases List.mem_append.mp hx with hx | hx
    · exact hk.fields x hx c hc
    · rw [List.mem_singleton.mp hx] at hc
      cases hc
  · rcases List.mem_append.mp hx with hx | hx
    · exact hk.read x hx c hc hg
    · rw [List.mem_singleton.mp hx] at hc
      cases hc
  · unfold Numbered
    dsimp only
    rw [List.map_append, List.length_append, ← List.append_assoc, List.length_singleton, ← Nat.add_assoc,
      List.range_succ]
    exact hk.numbered.append_right _

theorem Kept.read_field (hrun : Run (step cfg) Always (init cfg clock) tr w) (hk : Kept cfg clock tr w) {i : ℕ}
    {x : Scrape} {c : Metric} (hx : w.scrapes[i]? = some x) (hc : metricsSnapshot[x.next]? = some c) :
    Kept cfg clock (tr ++ [.read i])
      { w with scrapes := w.scrapes.set i { x with m := x.m.put (w.sys.metric cfg c) c, next := x.next + 1 } } := by
  have hmem := List.mem_of_getElem? hx
  have hearlier : ∀ {d}, d ≠ c → d ∈ metricsSnapshot.take (x.next + 1) → d ∈ metricsSnapshot.take x.next := by
    intro d hdc hd
    rw [List.take_add_one, hc, List.mem_append] at hd
    exact hd.resolve_right fun h => hdc (List.mem_singleton.mp h)
  refine { hk.snoc (.read i) with
    base := fun y hy => ?_, fields := fun y hy d hd => ?_, read := fun y hy d hd hg => ?_, numbered := ?_ }
  · rcases List.mem_or_eq_of_mem_set hy with hold | rfl
    · exact hk.base y hold
    · exact hk.base x hmem
  · rcases List.mem_or_eq_of_mem_set hy with hold | rfl
    · exact (hk.fields y hold d hd).snoc _
    · by_cases hdc : d = c
      · subst hdc
        exact hrun.once ⟨i, x, rfl, hx, rfl, hc, (MetricsSnapshot.get_put_self ..).symm⟩
      · have hread := (hk.fields x hmem d (hearlier hdc hd)).snoc (.read i)
        rwa [← MetricsSnapshot.get_put_of_ne hdc] at hread
  · rcases List.mem_or_eq_of_mem_set hy with hold | rfl
    · exact hk.read y hold d hd hg
    · change (x.m.put (w.sys.metric cfg c) c).get d ≤ _ ∧
        ∀ i p, w.pages[i]? = some p → i < x.base → p.m.get d ≤ (x.m.put (w.sys.metric cfg c) c).get d
      by_cases hdc : d = c
      · subst hdc
        rw [MetricsSnapshot.get_put_self]
        exact ⟨le_refl _, fun i p hp _ => hk.below p (List.mem_of_getElem? hp) d hg⟩
      · rw [MetricsSnapshot.get_put_of_ne hdc]
        exact hk.read x hmem d (hearlier hdc hd) hg
  · unfold Numbered
    dsimp only
    rw [List.length_set, List.map_set]
    have hsame : (w.scrapes.map Scrape.id).set i x.id = w.scrapes.map Scrape.id := by
      obtain ⟨hi, rfl⟩ := List.getElem?_eq_some_iff.mp hx
      rw [← List.map_set, List.set_getElem_self]
    rw [hsame]
    exact hk.numbered

theorem Kept.finish (hk : Kept cfg clock tr w) {i : ℕ} {x : Scrape} (hx : w.scrapes[i]? = some x)
    (hend : metricsSnapshot[x.next]? = none) :
    Kept cfg clock tr { w with scrapes := w.scrapes.eraseIdx i
                               pages := w.pages ++ [⟨x.id, x.base, x.m, renderPrometheus x.m⟩] } := by
  have hmem := List.mem_of_getElem? hx
  have hbase := hk.base x hmem
  have hlen : (w.pages ++ [(⟨x.id, x.base, x.m, renderPrometheus x.m⟩ : Page)]).length = w.pages.length + 1 :=
    List.length_append
  have hall : ∀ c, c ∈ metricsSnapshot.take x.next := fun c => by
    rw [List.take_of_length_le (List.getElem?_eq_none_iff.mp hend)]
    cases c <;> decide
  have hold : ∀ {i p n}, (w.pages ++ [(⟨x.id, x.base, x.m, renderPrometheus x.m⟩ : Page)])[i]? = some p → i < n →
      n ≤ w.pages.length → w.pages[i]? = some p :=
    fun hp hi hn => List.getElem?_append_left (lt_of_lt_of_le hi hn) ▸ hp
  refine ⟨fun p hp => ?_, fun p hp c => ?_, fun p hp c hc => ?_, fun p hp => ?_, fun q hq j p hp hj c hc => ?_,
    fun y hy => ?_, fun y hy c hc => hk.fields y (List.mem_of_mem_eraseIdx hy) c hc, fun y hy c hc hg => ?_, ?_⟩
  · rcases List.mem_append.mp hp with hp | hp
    · exact hk.text p hp
    · rw [List.mem_singleton.mp hp]
  · rcases List.mem_append.mp hp with hp | hp
    · exact hk.seen p hp c
    · rw [List.mem_singleton.mp hp]
      exact hk.fields x hmem c (hall c)
  · rcases List.mem_append.mp hp with hp | hp
    · exact hk.below p hp c hc
    · rw [List.mem_singleton.mp hp]
      exact (hk.read x hmem c (hall c) hc).1
  · rw [hlen]
    rcases List.mem_append.mp hp with hp | hp
    · exact (hk.based p hp).trans (Nat.le_succ _)
    · rw [List.mem_singleton.mp hp]
      exact hbase.trans (Nat.le_succ _)
  · rcases List.mem_append.mp hq with hq | hq
    · exact hk.order q hq j p (hold hp hj (hk.based q hq)) hj c hc
    · obtain rfl := List.mem_singleton.mp hq
      exact (hk.read x hmem c (hall c) hc).2 j p (hold hp hj hbase) hj
  · rw [hlen]
    exact (hk.base y (List.mem_of_mem_eraseIdx hy)).trans (Nat.le_succ _)
  · have hy' := List.mem_of_mem_eraseIdx hy
    obtain ⟨hle, hpast⟩ := hk.read y hy' c hc hg
    exact ⟨hle, fun j p hp hj => hpast j p (hold hp hj (hk.base y hy')) hj⟩
  · -- the number moves from the requests to the pages
    obtain ⟨hi, rfl⟩ := List.getElem?_eq_some_iff.mp hx
    have hids : (w.scrapes[i].id :: (w.scrapes.eraseIdx i).map Scrape.id).Perm (w.scrapes.map Scrape.id) :=
      (List.getElem_cons_eraseIdx_perm hi).map Scrape.id
    unfold Numbered
    dsimp only
    rw [hlen, List.length_eraseIdx_of_lt hi, List.map_append, List.append_assoc,
      show w.pages.length + 1 + (w.scrapes.length - 1) = w.pages.length + w.scrapes.length by omega]
    exact (hids.append_left _).trans hk.numbered

theorem kept_step (hrun : Run (step cfg) Always (init cfg clock) tr w) (hk : Kept cfg clock tr w)
    (h : w.step cfg act = some w') : Kept cfg clock (tr ++ [act]) w' := by
  cases act with
  | engine a =>
    obtain ⟨sys, hsys, rfl⟩ := Option.map_eq_some_iff.mp h
    have hmono : ∀ c : Metric, c.gauge = false → w.sys.metric cfg c ≤ sys.metric cfg c := fun c hc =>
      Sys.metric_mono (Sys.step_cases hsys) hc
    exact { hk.snoc (.engine a) with
      below := fun p hp c hc => (hk.below p hp c hc).trans (hmono c hc)
      read := fun x hx c hin hc => (hk.read x hx c hin hc).imp_left fun hle => hle.trans (hmono c hc) }
  | request =>
    obtain rfl := Option.some.inj h
    exact hk.request.snoc .request
  | read i =>
    obtain ⟨x, hx, h⟩ := Option.bind_eq_some_iff.mp h
    split at h
    · rename_i c hc
      split_ifs at h
      obtain rfl := Option.some.inj h
      exact hk.read_field hrun hx hc
    · obtain rfl := Option.some.inj h
      exact (hk.finish hx ‹_›).snoc (.read i)

theorem kept_of_run (h : Run (step cfg) Always (init cfg clock) tr w) : Kept cfg clock tr w := by
  induction h with
  | nil => exact kept_init cfg clock
  | snoc hrun _ hs ih => exact kept_step hrun ih hs

/-- However the reads and the engine interleave: a scraper reads back from every page the snapshot that was put on it,
each of whose fields the request of that page has read off the engine, and never sees a counter below what any page
showed that was done before this one was asked for. -/
theorem pages_monotone (h : Run (step cfg) Always (init cfg clock) tr w) :
    (w.pages.map Page.id).Nodup ∧
      (∀ p ∈ w.pages, parse p.text.toList = some (series.flatMap fun r => r.items p.m) ∧
        ∀ c, Once (step cfg) (init cfg clock) (Reads cfg p.id c (p.m.get c)) tr) ∧
      ∀ (i j : ℕ) (p q : Page), w.pages[i]? = some p → w.pages[j]? = some q → i < q.base →
        ∀ r ∈ series, r.kind = "counter" →
          ∃ a b, p.scraped r.name = some a ∧ q.scraped r.name = some b ∧ a ≤ b := by
  have hk := kept_of_run h
  have hcounter : ∀ r ∈ series, r.kind = "counter" → r.metric.gauge = false := by decide
  refine ⟨?_, fun p hp => ⟨?_, hk.seen p hp⟩, fun i j p q hp hq hlt r hr hkind => ?_⟩
  · exact (List.nodup_append.mp (hk.numbered.nodup_iff.mpr List.nodup_range)).1
  · rw [hk.text p hp, parse_renderPrometheus]
  · have hp' := List.mem_of_getElem? hp
    have hq' := List.mem_of_getElem? hq
    exact ⟨_, _, Page.scraped_of_text (hk.text p hp') hr, Page.scraped_of_text (hk.text q hq') hr,
      hk.order q hq' i p hp hlt r.metric (hcounter r hr hkind)⟩

/-- A page is read while a call is placed, and another one after that. -/
def twoPages : List MonitorAct :=
  [.request] ++ List.replicate 2 (.read 0) ++ [.engine (.place "100" ⟨.null, none, none⟩ 0 1 none)] ++
    List.replicate 2 (.engine (.placing 0)) ++ List.replicate 20 (.read 0) ++ [.request] ++ List.replicate 22 (.read 0)

theorem pages_monotone_two : ∃ w p q, exec (step Sys.noPreflight) (init Sys.noPreflight 0) twoPages = some w ∧
    w.pages[0]? = some p ∧ w.pages[1]? = some q ∧ q.base = 1 ∧
      parse p.text.toList = some (series.flatMap fun r => r.items p.m) ∧ p.m.queued = 0 ∧ p.m.placedTotal = 1 ∧
      Once (step Sys.noPreflight) (init Sys.noPreflight 0) (Reads Sys.noPreflight p.id .queued 0) twoPages ∧
      ∃ a b, p.scraped "kutsu_calls_placed_total" = some a ∧ q.scraped "kutsu_calls_placed_total" = some b ∧ a ≤ b := by
  obtain ⟨w, p, q, hw, hp, hq, hbase, hqueued, hplaced⟩ :
      ∃ w p q, exec (step Sys.noPreflight) (init Sys.noPreflight 0) twoPages = some w ∧ w.pages[0]? = some p ∧
        w.pages[1]? = some q ∧ q.base = 1 ∧ p.m.queued = 0 ∧ p.m.placedTotal = 1 :=
    ⟨_, _, _, rfl, rfl, rfl, rfl, rfl, rfl⟩
  obtain ⟨-, hpage, hmono⟩ := pages_monotone (run_of_exec hw)
  obtain ⟨hparse, hread⟩ := hpage p (List.mem_of_getElem? hp)
  have hrow : ⟨.placedTotal, "kutsu_calls_placed_total", "Calls placed since start.", "counter"⟩ ∈ series := by
    simp [series]
  exact ⟨w, p, q, hw, hp, hq, hbase, hparse, hqueued, hplaced, hqueued ▸ hread .queued,
    hmono 0 1 p q hp hq (hbase ▸ Nat.zero_lt_one) _ hrow rfl⟩

end Monitor

end Kutsu
