import Kutsu.Model.Archive
import Kutsu.Proofs.Durable

/-! Which of the records on disk are kept. A process writes a call's file once, but numbers its calls
from 0 like every other, so a file lasts until a later process writes a call of the same number. -/

namespace Kutsu

open Runs

theorem fileName_injective {i j : CallId} (h : fileName i = fileName j) : i = j := by
  have hlist := congrArg String.toList h
  rw [fileName, fileName, String.toList_append, String.toList_append] at hlist
  exact String.toList_inj.mp (List.append_cancel_right hlist)

theorem Attempt.persist_of_next {cfg : ServerConfig} {sh : Shared} {tok : Token} {a : Attempt} {input : RunInput}
    {ph : Phase} {eff : Effect} {rec : CallRecord} (h : a.next cfg sh tok input = some (ph, eff))
    (hp : eff.persists = some rec) : a.phase = .persist ∧ input = .go ∧ sh.store.get a.id = some rec := by
  have hpanic : input ≠ .panic := by
    rintro rfl
    rw [(panic_next h).2.2] at hp
    cases hp
  have hstep := next_step h
  cases hph : a.phase with
  | finalizing | bumping | countAbort =>
    obtain rfl := go_of_next h (by rw [hph]; rfl) hpanic
    unfold next at h
    rw [hph] at h
    obtain ⟨-, rfl⟩ := Prod.mk.inj (Option.some.inj h)
    cases hp
  | persist =>
    obtain rfl := go_of_next h (by rw [hph]; rfl) hpanic
    unfold next at h
    rw [hph] at h
    obtain ⟨-, rfl⟩ := Prod.mk.inj (Option.some.inj h)
    split at hp
    · rename_i dir rec' hdir hrec
      exact ⟨rfl, rfl, hrec.trans hp⟩
    · cases hp
  | _ =>
    rw [(hstep.apart (by rw [hph]; rfl)).2.2] at hp
    cases hp

namespace World

variable {dir : String} {w w' : World} {act : WorldAct}

@[simp] theorem lookup_write (w : World) (rec : CallRecord) :
    (w.write rec).disk.lookup (fileName rec.callId) = some ⟨w.lifetime, rec⟩ := AList.lookup_insert _

theorem lookup_write_of_ne {name : String} {rec : CallRecord} (h : name ≠ fileName rec.callId) :
    (w.write rec).disk.lookup name = w.disk.lookup name := AList.lookup_insert_ne h

/-- Every record that was written is still in its file. -/
def Intact (w : World) : Prop := ∀ x ∈ w.written, w.disk.lookup (fileName x.record.callId) = some x

/-- The step does not write the record of a call whose number an earlier process has a file of. -/
def Unused (w : World) : WorldAct → Prop
  | .act (.run tok .go) => ∀ att ∈ w.sys.attempts[tok]?, (att.phase matches .persist) →
      (w.sys.sh.store.get att.id).isSome = true →
      ∀ x ∈ w.disk.lookup (fileName att.id), x.lifetime = w.lifetime
  | _ => True

def Writing (w : World) (a : Act) (att : Attempt) (rec : CallRecord) : Prop :=
  ∃ tok, a = .run tok .go ∧ w.sys.attempts[tok]? = some att ∧ att.phase = .persist ∧
    w.sys.sh.store.get att.id = some rec

theorem news_of_writing {a : Act} {att : Attempt} {rec : CallRecord} {sys : Sys}
    (hcfg : w.cfg.transcriptDir = some dir) (hw : w.Writing a att rec) (h : Sys.Step w.cfg w.sys a sys) :
    Sys.news w.sys sys = [.persisted rec] := by
  obtain ⟨tok, rfl, hatt, hph, hrec⟩ := hw
  cases h with
  | @run _ _ att' phase eff hatt' hn hl =>
    obtain rfl := Option.some.inj (hatt.symm.trans hatt')
    unfold Attempt.next at hn
    rw [hph, hcfg, hrec] at hn
    obtain ⟨-, rfl⟩ := Prod.mk.inj (Option.some.inj hn)
    exact Sys.news_eq (.persist rec) rfl

theorem writing_of_news {a : Act} {rec : CallRecord} {sys : Sys} (h : Sys.Step w.cfg w.sys a sys)
    (hmem : .persisted rec ∈ Sys.news w.sys sys) : ∃ att, w.Writing a att rec := by
  obtain ⟨eff, -, hlog, horigin⟩ := h.origin hmem
  have hper := Shared.persists_of_mem hlog
  obtain ⟨tok, input, att, ph, rfl, hatt, hn⟩ := horigin.of_persist hper
  obtain ⟨hph, rfl, hrec⟩ := Attempt.persist_of_next hn hper
  exact ⟨att, tok, rfl, hatt, hph, hrec⟩

theorem act_cases {a : Act} (hcfg : w.cfg.transcriptDir = some dir) (h : w.step dir (.act a) = some w') :
    ∃ sys, Sys.Step w.cfg w.sys a sys ∧
      ((∃ att rec, w.Writing a att rec ∧ w' = { w with sys }.write rec) ∨
        (∀ att rec, ¬ w.Writing a att rec) ∧ w' = { w with sys }) := by
  obtain ⟨sys, hsys, hw'⟩ := Option.bind_eq_some_iff.mp h
  have hstep := Sys.step_cases hsys
  obtain rfl := Option.some.inj hw'
  refine ⟨sys, hstep, ?_⟩
  by_cases hw : ∃ att rec, w.Writing a att rec
  · obtain ⟨att, rec, hw⟩ := hw
    refine Or.inl ⟨att, rec, hw, ?_⟩
    have hnews := news_of_writing hcfg hw hstep
    rw [Sys.news] at hnews
    rw [hnews]
    rfl
  · have hno : ∀ att rec, ¬ w.Writing a att rec := fun att rec hwr => hw ⟨att, rec, hwr⟩
    refine Or.inr ⟨hno, ?_⟩
    have hnil : (Sys.news w.sys sys).filterMap Obs.record? = [] := by
      refine List.filterMap_eq_nil_iff.mpr fun o ho => ?_
      cases o with
      | persisted rec =>
        obtain ⟨att, hwr⟩ := writing_of_news hstep ho
        exact absurd hwr (hno att rec)
      | _ => rfl
    rw [Sys.news] at hnil
    rw [hnil]
    rfl

theorem unused_iff {a : Act} {att : Attempt} {rec : CallRecord} (hw : w.Writing a att rec) :
    w.Unused (.act a) ↔ ∀ x, w.disk.lookup (fileName att.id) = some x → x.lifetime = w.lifetime := by
  obtain ⟨tok, rfl, hatt, hph, hrec⟩ := hw
  refine ⟨fun h => h att hatt (by rw [hph]) (by rw [hrec]; rfl), fun h att' hatt' _ _ => ?_⟩
  obtain rfl := Option.some.inj (hatt.symm.trans hatt')
  exact h

theorem unused_of_not_writing {a : Act} (hno : ∀ att rec, ¬ w.Writing a att rec) : w.Unused (.act a) := by
  unfold Unused
  split
  · rename_i tok heq
    obtain rfl := WorldAct.act.inj heq
    intro att hatt hph hsome
    obtain ⟨rec, hrec⟩ := Option.isSome_iff_exists.mp hsome
    refine absurd ⟨tok, rfl, hatt, ?_, hrec⟩ (hno att rec)
    cases hp : att.phase with
    | persist => rfl
    | _ => rw [hp] at hph; cases hph
  · trivial

/-- The engine is one that this process has run, and the history is that of the directory. -/
structure Kept (dir : String) (w : World) : Prop where
  cfg : w.cfg.transcriptDir = some dir
  filed : w.sys.Filed
  past : ∀ x ∈ w.written, x.lifetime ≤ w.lifetime
  now : ∀ x ∈ w.written, x.lifetime = w.lifetime → .persisted x.record ∈ w.sys.sh.log
  files : ∀ name x, w.disk.lookup name = some x → x ∈ w.written ∧ name = fileName x.record.callId

theorem kept_init {cfg : ServerConfig} (hcfg : cfg.transcriptDir = some dir) (clock : ℕ) :
    (init cfg clock).Kept dir where
  cfg := hcfg
  filed := Sys.filed_init clock
  past _ h := by cases h
  now _ h := by cases h
  files name x h := by
    rw [init, AList.lookup_empty] at h
    cases h

theorem Kept.fresh {a : Act} {att : Attempt} {rec : CallRecord} {sys : Sys} (hk : w.Kept dir)
    (hw : w.Writing a att rec) (h : Sys.Step w.cfg w.sys a sys) :
    rec.callId = att.id ∧ .persisted rec ∈ sys.sh.log ∧
      ∀ x ∈ w.written, x.lifetime = w.lifetime → x.record.callId ≠ att.id := by
  have hkey : rec.callId = att.id := hk.filed.keyed _ _ hw.choose_spec.2.2.2
  have hlog : sys.sh.log = w.sys.sh.log ++ [.persisted rec] := by
    rw [h.log_eq, news_of_writing hk.cfg hw h]
  refine ⟨hkey, hlog ▸ List.mem_append_right _ (List.mem_singleton.mpr rfl), fun x hx hlife hid => ?_⟩
  have hf := Sys.filed_step (by rw [hk.cfg]; rfl) hk.filed h
  have hone : sys.persisted att.id ≤ 1 := by
    have hback := hf.backed att.id
    have hle : sys.finalized att.id ≤ 1 := Sys.finalized_le_one hf.sound.custody att.id
    omega
  have hpos : 1 ≤ w.sys.persisted att.id :=
    List.one_le_countP_iff.mpr ⟨_, hk.now x hx hlife, beq_iff_eq.mpr hid⟩
  have hsum : sys.persisted att.id = w.sys.persisted att.id + 1 := by
    rw [Sys.persisted, hlog, Counting.countP_concat, Obs.persists, beq_iff_eq.mpr hkey]
    rfl
  omega

theorem kept_step {act : WorldAct} (hk : w.Kept dir) (h : w.step dir act = some w') : w'.Kept dir := by
  cases act with
  | act a =>
    obtain ⟨sys, hstep, hcases⟩ := act_cases hk.cfg h
    have hf := Sys.filed_step (by rw [hk.cfg]; rfl) hk.filed hstep
    have hnow : ∀ x ∈ w.written, x.lifetime = w.lifetime → .persisted x.record ∈ sys.sh.log := by
      intro x hx hlife
      rw [hstep.log_eq]
      exact List.mem_append_left _ (hk.now x hx hlife)
    rcases hcases with ⟨att, rec, hw, rfl⟩ | ⟨-, rfl⟩
    · obtain ⟨hkey, hlog, -⟩ := hk.fresh hw hstep
      refine ⟨hk.cfg, hf, ?_, ?_, ?_⟩
      · intro x hx
        rcases List.mem_append.mp hx with hold | hnew
        · exact hk.past x hold
        · rw [List.mem_singleton.mp hnew]
          exact le_rfl
      · intro x hx hlife
        rcases List.mem_append.mp hx with hold | hnew
        · exact hnow x hold hlife
        · rw [List.mem_singleton.mp hnew]
          exact hlog
      · intro name x hx
        by_cases hname : name = fileName rec.callId
        · subst hname
          have hself : some ⟨w.lifetime, rec⟩ = some x := (lookup_write _ rec).symm.trans hx
          obtain rfl := Option.some.inj hself
          exact ⟨List.mem_append_right _ (List.mem_singleton.mpr rfl), rfl⟩
        · have hold : w.disk.lookup name = some x := (lookup_write_of_ne hname).symm.trans hx
          obtain ⟨hmem, heq⟩ := hk.files name x hold
          exact ⟨List.mem_append_left _ hmem, heq⟩
    · exact ⟨hk.cfg, hf, hk.past, hnow, hk.files⟩
  | restart cfg clock =>
    simp only [step] at h
    split_ifs at h with hcfg
    obtain rfl := Option.some.inj h
    refine ⟨hcfg, Sys.filed_init clock, fun x hx => Nat.le_succ_of_le (hk.past x hx), ?_, hk.files⟩
    intro x hx hlife
    exact absurd (hk.past x hx) (by rw [hlife]; exact Nat.not_succ_le_self _)

theorem intact_step {act : WorldAct} (hk : w.Kept dir) (hi : w.Intact) (hok : w.Unused act)
    (h : w.step dir act = some w') : w'.Intact := by
  cases act with
  | act a =>
    obtain ⟨sys, hstep, ⟨att, rec, hw, rfl⟩ | ⟨-, rfl⟩⟩ := act_cases hk.cfg h
    · obtain ⟨hkey, -, hfresh⟩ := hk.fresh hw hstep
      intro x hx
      rcases List.mem_append.mp hx with hold | hnew
      · have hx := hi x hold
        refine (lookup_write_of_ne fun hname => ?_).trans hx
        have hid : x.record.callId = att.id := (fileName_injective hname).trans hkey
        exact hfresh x hold ((unused_iff hw).mp hok x (hid ▸ hx)) hid
      · rw [List.mem_singleton.mp hnew]
        exact lookup_write _ rec
    · exact hi
  | restart cfg clock =>
    simp only [step] at h
    split_ifs at h
    obtain rfl := Option.some.inj h
    exact hi

theorem overwritten_step {act : WorldAct} (hk : w.Kept dir) (hno : ¬ w.Unused act)
    (h : w.step dir act = some w') : ¬ w'.Intact := by
  cases act with
  | act a =>
    obtain ⟨sys, hstep, ⟨att, rec, hw, rfl⟩ | ⟨hnone, -⟩⟩ := act_cases hk.cfg h
    · obtain ⟨hkey, -, -⟩ := hk.fresh hw hstep
      rw [unused_iff hw] at hno
      push Not at hno
      obtain ⟨x, hx, hlife⟩ := hno
      obtain ⟨hmem, hname⟩ := hk.files _ x hx
      intro hi
      have hself : some ⟨w.lifetime, rec⟩ = some x := by
        have hstill := hi x (List.mem_append_left _ hmem)
        rw [← hname, ← hkey] at hstill
        exact (lookup_write _ rec).symm.trans hstill
      exact hlife (congrArg Stored.lifetime (Option.some.inj hself)).symm
    · exact absurd (unused_of_not_writing hnone) hno
  | restart => exact absurd trivial hno

theorem gone_step {act : WorldAct} (hk : w.Kept dir) (hgone : ¬ w.Intact)
    (h : w.step dir act = some w') : ¬ w'.Intact := by
  obtain ⟨x, hx, hne⟩ : ∃ x ∈ w.written, w.disk.lookup (fileName x.record.callId) ≠ some x := by
    unfold Intact at hgone
    push Not at hgone
    exact hgone
  cases act with
  | act a =>
    obtain ⟨sys, hstep, ⟨att, rec, hw, rfl⟩ | ⟨-, rfl⟩⟩ := act_cases hk.cfg h
    · obtain ⟨hkey, -, hfresh⟩ := hk.fresh hw hstep
      intro hi
      have hnow := hi x (List.mem_append_left _ hx)
      by_cases hname : fileName x.record.callId = fileName rec.callId
      · have hself : some ⟨w.lifetime, rec⟩ = some x := by
          rw [hname] at hnow
          exact (lookup_write _ rec).symm.trans hnow
        obtain rfl := Option.some.inj hself
        exact hfresh _ hx rfl hkey
      · exact hne ((lookup_write_of_ne hname).symm.trans hnow)
    · exact fun hi => hne (hi x hx)
  | restart cfg clock =>
    simp only [step] at h
    split_ifs at h
    obtain rfl := Option.some.inj h
    exact fun hi => hne (hi x hx)

/-- Every record that was ever written is still in its file exactly when no process has written a call
of a number that an earlier one has a file of. -/
theorem intact_iff {cfg : ServerConfig} {clock : ℕ} {tr : List WorldAct} (hcfg : cfg.transcriptDir = some dir)
    (h : Run (step dir) Always (init cfg clock) tr w) :
    w.Intact ↔ Run (step dir) Unused (init cfg clock) tr w := by
  have hcases : _ ∧ _ ∨ ¬ Run (step dir) Unused (init cfg clock) tr w ∧ _ := h.good_or_bad
    (G := fun v => v.Kept dir ∧ v.Intact) (B := fun v => v.Kept dir ∧ ¬ v.Intact)
    ⟨kept_init hcfg clock, fun _ hx => by cases hx⟩
    (fun _ _ _ hg hok hs => ⟨kept_step hg.1 hs, intact_step hg.1 hg.2 hok hs⟩)
    (fun _ _ _ hg hno hs => ⟨kept_step hg.1 hs, overwritten_step hg.1 hno hs⟩)
    (fun _ _ _ hb hs => ⟨kept_step hb.1 hs, gone_step hb.1 hb.2 hs⟩)
  rcases hcases with ⟨hok, -, hi⟩ | ⟨hno, -, hgone⟩
  · exact iff_of_true hi hok
  · exact iff_of_false hgone hno

instance (w : World) (act : WorldAct) : Decidable (w.Unused act) :=
  match act with
  | .act a =>
    match a with
    | .run tok input =>
      match input with
      | .go => inferInstanceAs (Decidable (∀ att ∈ w.sys.attempts[tok]?, (att.phase matches .persist) →
          (w.sys.sh.store.get att.id).isSome = true →
          ∀ x ∈ w.disk.lookup (fileName att.id), x.lifetime = w.lifetime))
      | .cancelled | .panic | .probe _ | .slept | .invited _ | .warmed _ | .ring _ | .loop _ | .drain _
      | .joined _ | .snapshot _ _ _ => .isTrue trivial
    | .tick _ | .place .. | .placing _ | .dispatch | .timer | .endCall _ | .ender _ => .isTrue trivial
  | .restart _ _ => .isTrue trivial

/-- A process whose first call nobody answers, and whose second is answered and talked on. -/
def secondTalked : List Act :=
  Sys.unanswered ++ List.replicate 4 (.run 0 .go) ++ Sys.placeCall 1 0 ++ List.replicate 9 .dispatch ++
    [.run 1 .go, .run 1 .go, .run 1 (.invited (.ok ())), .run 1 (.warmed (.ok ())),
      .run 1 (.ring (.answered ⟨8, .alaw, 20⟩)), .run 1 .go, .run 1 (.loop (.bridgeDone (some .phoneClosed))),
      .run 1 (.joined ⟨.callerHangup, none, [⟨.user, "hello", 0⟩]⟩),
      .run 1 (.snapshot {} ⟨0, 0, 0⟩ ⟨false, 0, 0, 0⟩)] ++
    List.replicate 6 (.run 1 .go)

/-- After a process that talked on its first call, the file of the second goes beside that of the first. -/
theorem intact_iff_secondTalked :
    ∃ w, exec (guarded (step "calls") Unused) (init Sys.keptOnDisk 0)
        (Sys.talked.map .act ++ .restart Sys.keptOnDisk 0 :: secondTalked.map .act) = some w ∧
      (w.written.map fun x => (x.lifetime, x.record.callId)) = [(0, callId 0), (1, callId 1)] ∧ w.Intact := by
  have hrun : (exec (guarded (step "calls") Unused) (init Sys.keptOnDisk 0)
      (Sys.talked.map .act ++ .restart Sys.keptOnDisk 0 :: secondTalked.map .act)).any (fun w =>
        (w.written.map fun x => (x.lifetime, x.record.callId)) = [(0, callId 0), (1, callId 1)]) = true := by
    decide +kernel
  obtain ⟨w, hw, hend⟩ := (Option.any_eq_true _ _).mp hrun
  have hrun := run_of_guarded hw
  exact ⟨w, hw, of_decide_eq_true hend, (intact_iff rfl hrun.unconditional).mpr hrun⟩

/-- Two processes talk on a call each. Both calls are number 0, and the second record takes the file of
the first. -/
theorem overwritten_by_restart :
    ∃ w x y, exec (step "calls") (init Sys.keptOnDisk 0)
        (Sys.talked.map .act ++ .restart Sys.keptOnDisk 0 :: Sys.talked.map .act) = some w ∧
      w.written = [x, y] ∧ x.lifetime = 0 ∧ y.lifetime = 1 ∧
      w.disk.lookup (fileName x.record.callId) = some y ∧ ¬ w.Intact := by
  obtain ⟨w, x, y, hw, hwritten, hx, hy, hfile⟩ : ∃ w x y, exec (step "calls") (init Sys.keptOnDisk 0)
        (Sys.talked.map .act ++ .restart Sys.keptOnDisk 0 :: Sys.talked.map .act) = some w ∧
      w.written = [x, y] ∧ x.lifetime = 0 ∧ y.lifetime = 1 ∧
      w.disk.lookup (fileName x.record.callId) = some y := ⟨_, _, _, rfl, rfl, rfl, rfl, rfl⟩
  refine ⟨w, x, y, hw, hwritten, hx, hy, hfile, fun hi => ?_⟩
  have hstill := hi x (hwritten ▸ List.mem_cons_self)
  rw [hfile] at hstill
  obtain rfl := Option.some.inj hstill
  omega

end World

end Kutsu
