import Kutsu.Lib.Numeral
import Kutsu.Model.Transport
import Kutsu.Proofs.SipCall

/-! The SIP transport, over every interleaving of its callers, its thread and the calls on it: every caller is answered,
once and by its own call, or learns that the thread is gone, and the count of active calls is that of the tasks. -/

namespace Kutsu

open Pipes Runs

theorem sipCallId_injective {m n : ℕ} (h : sipCallId m = sipCallId n) : m = n := by
  have hl := congrArg String.toList h
  simp only [sipCallId, String.toList_append, List.append_cancel_left_eq, Nat.toString_eq_repr, Nat.toList_repr] at hl
  exact Numerals.toDigits_inj.mp hl

theorem exists_split {α : Type*} {l : List α} {i : ℕ} {a : α} (h : l[i]? = some a) :
    ∃ before after, l = before ++ a :: after ∧ l.eraseIdx i = before ++ after ∧
      ∀ b, l.set i b = before ++ b :: after := by
  obtain ⟨hi, rfl⟩ := List.getElem?_eq_some_iff.mp h
  refine ⟨l.take i, l.drop (i + 1), ?_, List.eraseIdx_eq_take_drop_succ l i, fun b => ?_⟩
  · rw [List.cons_getElem_drop_succ, List.take_append_drop]
  · rw [List.set_eq_take_append_cons_drop, if_pos hi]

namespace SipCall

variable {c c' : SipCall} {story : List SipEvent} {input : CallInput} {now : ℕ}

theorem callId_of_step (h : Step c input c') : c'.callId = c.callId := by
  cases h with
  | negotiated hpc hs => unfold negotiated; split <;> rfl
  | _ => rfl

inductive Replying (c : SipCall) (input : CallInput) (c' : SipCall) : Prop where
  | still (hreply : c'.reply = c.reply) (hhanded : c'.handed = c.handed)
  | refused (e : SipError) (hnone : c.reply = none) (hreply : c'.reply = some (.error e)) (hhanded : c'.handed = false)
  | handed (taken : Bool) (hin : input = .replied taken) (hnone : c.reply = none) (hreply : c'.reply = some (.ok ()))
      (hhanded : c'.handed = taken)

theorem Kept.replying (k : c.Kept story) (h : Step c input c') : Replying c input c' := by
  have hp := k.place
  cases h with
  | refusedRequest hpc =>
    rcases hpc with hpc | hpc
    all_goals
      rw [hpc] at hp
      exact .refused _ hp.2.2.1 rfl hp.2.2.2
  | replied hpc hin =>
    rw [hpc] at hp
    exact .handed _ hin hp.2.2.1 rfl rfl
  | negotiated hpc hs => unfold negotiated; split <;> exact .still rfl rfl
  | _ => exact .still rfl rfl

theorem Kept.reply_of_handed (k : c.Kept story) (h : c.handed = true) : c.reply ≠ none := by
  have hp := k.place
  cases hpc : c.pc
  all_goals rw [hpc] at hp
  case media | make | reply => exact absurd h (by simp [hp.2.2.2])
  case cancel => exact hp.2.2.1
  case completion | finish => exact hp.2.2
  case negotiating => exact hp.2.2.1
  case answering => exact hp.2.2.1
  case live | hangingUp | terminating | bye | returned => exact hp.2.1

theorem Kept.reply_of_returned (k : c.Kept story) (h : c.pc = .returned) : c.reply ≠ none := by
  have hp := k.place
  rw [h] at hp
  exact hp.2.1

end SipCall

namespace SipThread

variable {s s' : SipThread} {t i now : ℕ} {r : RunningCall} {reply : Except SipError String} {input : CallInput}

/-- The callers whose commands the thread has taken, in this order. -/
def started (s : SipThread) : List ℕ := s.cmds.read.filterMap Cmd.ticket?

/-- The callers whose commands are in the channel. -/
def queued (s : SipThread) : List ℕ := s.cmds.queued.filterMap Cmd.ticket?

def all (s : SipThread) : List RunningCall := s.calls ++ (s.finished ++ s.lost)

/-- The caller's number does not change, whatever it is told. -/
def SameCallers (s s' : SipThread) : Prop :=
  ∀ (t : ℕ) (c : Caller), s.callers[t]? = some c → ∃ c' : Caller, s'.callers[t]? = some c' ∧ c'.number = c.number

/-- A call is its caller's: the id counts the callers, the number is the one that was asked for. -/
structure Own (s : SipThread) (r : RunningCall) : Prop where
  named : ∃ k, s.started[k]? = some r.ticket ∧ r.call.callId = sipCallId (k + 1)
  number : ∃ c, s.callers[r.ticket]? = some c ∧ c.number = r.number
  run : ∃ tr, Run SipCall.step Always { callId := r.call.callId } tr r.call

/-- Where a caller stands: whose answer it waits for, or has. -/
def Heard (s : SipThread) (t : ℕ) : CallerPc → Prop
  | .sending => s.pc.listens = true ∧ t ∉ s.queued ∧ ∀ r ∈ s.all, r.ticket ≠ t
  | .waiting => s.pc.listens = true ∧ t ∈ s.queued ∨ ∃ r ∈ s.calls, r.ticket = t ∧ r.call.reply = none
  | .told (.ok id) => ∃ r ∈ s.all, r.ticket = t ∧ r.call.callId = id ∧ r.call.handed = true
  | .told (.error e) =>
    (∃ r ∈ s.all, r.ticket = t ∧ r.call.reply = some (.error e)) ∨
      e = .runtimeGone ∧ (s.pc.listens = false ∨ ∃ r ∈ s.lost, r.ticket = t ∧ r.call.reply = none)
  | .dropped => True

/-- The thread's own accounts. -/
structure Books (s : SipThread) : Prop where
  started : s.started.length = s.seq
  all : s.all.length = s.seq
  active : s.active = s.calls.length + s.lost.length
  custody : (s.queued ++ s.all.map (·.ticket)).Nodup
  calls : ∀ r ∈ s.all, s.Own r
  queued : ∀ number t, .place number t ∈ s.cmds.queued → ∃ c, s.callers[t]? = some c ∧ c.number = number
  finished : ∀ r ∈ s.finished, r.call.pc = .returned
  deaf : s.pc.listens = false → s.cmds.queued = []
  ended : s.pc = .ended → s.calls = []

structure Kept (s : SipThread) : Prop where
  books : s.Books
  callers : ∀ t c, s.callers[t]? = some c → s.Heard t c.pc

/-- What a caller may have been told of a call stays true of it. -/
structure Follows (r r' : RunningCall) : Prop where
  ticket : r'.ticket = r.ticket
  callId : r'.call.callId = r.call.callId
  reply : ∀ x, r.call.reply = some x → r'.call.reply = some x
  handed : r.call.handed = true → r'.call.handed = true

/-- What a caller may have been told stays true. -/
structure Grows (s s' : SipThread) : Prop where
  listens : s.pc.listens = false → s'.pc.listens = false
  all : ∀ r ∈ s.all, ∃ r' ∈ s'.all, Follows r r'
  lost : ∀ r ∈ s.lost, r ∈ s'.lost

theorem Follows.refl (r : RunningCall) : Follows r r := ⟨rfl, rfl, fun _ h => h, id⟩

theorem Heard.grow {x : CallerPc} (h : s.Heard t x) (g : s.Grows s')
    (hsending : x = .sending → s'.Heard t .sending) (hwaiting : x = .waiting → s'.Heard t .waiting) :
    s'.Heard t x := by
  cases x with
  | sending => exact hsending rfl
  | waiting => exact hwaiting rfl
  | dropped => trivial
  | told reply =>
    cases reply with
    | ok id =>
      obtain ⟨r, hr, ht, hid, hh⟩ := h
      obtain ⟨r', hr', f⟩ := g.all r hr
      exact ⟨r', hr', f.ticket.trans ht, f.callId.trans hid, f.handed hh⟩
    | error e =>
      rcases h with ⟨r, hr, ht, hreply⟩ | ⟨he, hgone⟩
      · obtain ⟨r', hr', f⟩ := g.all r hr
        exact Or.inl ⟨r', hr', f.ticket.trans ht, f.reply _ hreply⟩
      · refine Or.inr ⟨he, hgone.imp g.listens ?_⟩
        rintro ⟨r, hr, hlost⟩
        exact ⟨r, g.lost r hr, hlost⟩

theorem Own.mono (h : s.Own r) (hstarted : s.started <+: s'.started) (hsame : s.SameCallers s') : s'.Own r := by
  obtain ⟨⟨j, hj, hid⟩, ⟨c, hc, hnumber⟩, hrun⟩ := h
  refine ⟨⟨j, ?_, hid⟩, ?_, hrun⟩
  · obtain ⟨more, hmore⟩ := hstarted
    rw [← hmore, List.getElem?_append_left (List.getElem?_eq_some_iff.mp hj).1, hj]
  · obtain ⟨c', hc', heq⟩ := hsame _ _ hc
    exact ⟨c', hc', heq.trans hnumber⟩

theorem Books.frame (b : s.Books) (hall : s'.all.Perm s.all) (hstarted : s'.started = s.started)
    (hqueued : s'.queued = s.queued) (hcmds : ∀ cmd ∈ s'.cmds.queued, cmd ∈ s.cmds.queued) (hsame : s.SameCallers s')
    (hseq : s'.seq = s.seq) (hactive : s'.active = s'.calls.length + s'.lost.length)
    (hfinished : ∀ r ∈ s'.finished, r.call.pc = .returned) (hl : s'.pc.listens = s.pc.listens)
    (hended : s'.pc = .ended → s'.calls = []) : s'.Books where
  started := by rw [hstarted, hseq, b.started]
  all := by rw [hall.length_eq, hseq, b.all]
  active := hactive
  custody := by
    rw [hqueued]
    exact ((hall.map _).append_left _).nodup_iff.mpr b.custody
  calls r hr := (b.calls r (hall.mem_iff.mp hr)).mono (hstarted ▸ List.prefix_refl _) hsame
  queued number t ht := by
    obtain ⟨c, hc, hnumber⟩ := b.queued number t (hcmds _ ht)
    obtain ⟨c', hc', heq⟩ := hsame t c hc
    exact ⟨c', hc', heq.trans hnumber⟩
  finished := hfinished
  deaf h := List.eq_nil_iff_forall_not_mem.mpr fun cmd hcmd => by
    have hin := hcmds cmd hcmd
    rw [b.deaf (hl.symm.trans h)] at hin
    cases hin
  ended := hended

theorem Books.stand (b : s.Books) {callers : List Caller} {transport : Bool}
    (hsame : s.SameCallers { s with callers, transport }) : Books { s with callers, transport } :=
  b.frame (List.Perm.refl _) rfl rfl (fun _ h => h) hsame rfl b.active b.finished rfl b.ended

/-- The callers when no command has come or been taken: nobody loses the call it waits for. -/
theorem Heard.frame {x : CallerPc} (h : s.Heard t x) (hall : s'.all.Perm s.all) (hqueued : s'.queued = s.queued)
    (hl : s'.pc.listens = s.pc.listens) (hlost : ∀ r ∈ s.lost, r ∈ s'.lost)
    (hcalls : ∀ r ∈ s.calls, r.ticket = t → r.call.reply = none → r ∈ s'.calls) : s'.Heard t x := by
  have g : s.Grows s' := ⟨hl.trans, fun r hr => ⟨r, hall.mem_iff.mpr hr, Follows.refl r⟩, hlost⟩
  refine h.grow g (fun hx => ?_) (fun hx => ?_)
  · rw [hx] at h
    exact ⟨hl.trans h.1, hqueued ▸ h.2.1, fun r hr => h.2.2 r (hall.mem_iff.mp hr)⟩
  · rw [hx] at h
    refine h.imp (fun ⟨hlisten, hin⟩ => ⟨hl.trans hlisten, hqueued ▸ hin⟩) ?_
    rintro ⟨r, hr, ht, hnone⟩
    exact ⟨r, hcalls r hr ht hnone, ht, hnone⟩

theorem sameCallers_set {c : Caller} {pc : CallerPc} (hc : s.callers[t]? = some c)
    (h : s'.callers = s.callers.set t { c with pc }) : s.SameCallers s' := by
  intro t' c' hc'
  rw [h, List.getElem?_set]
  split_ifs with ht hlt
  · subst ht
    obtain rfl := Option.some.inj (hc.symm.trans hc')
    exact ⟨_, rfl, rfl⟩
  · subst ht
    exact absurd (List.getElem?_eq_some_iff.mp hc').1 hlt
  · exact ⟨c', hc', rfl⟩

theorem getElem?_tell {tickets : List ℕ} :
    (s.tell tickets reply).callers[t]? = (s.callers[t]?).map fun c => if t ∈ tickets then c.tell reply else c :=
  List.getElem?_mapIdx

theorem number_tell (c : Caller) : (c.tell reply).number = c.number := by
  unfold Caller.tell
  split <;> rfl

theorem Books.tell (b : s.Books) (tickets : List ℕ) (reply : Except SipError String) :
    (s.tell tickets reply).Books := by
  refine b.stand fun t c hc => ⟨_, getElem?_tell.trans (congrArg _ hc), ?_⟩
  split
  · exact number_tell c
  · rfl

theorem Books.lt_of_mem (b : s.Books) (h : t ∈ s.queued ∨ ∃ r ∈ s.all, r.ticket = t) : t < s.callers.length := by
  rcases h with h | ⟨r, hr, rfl⟩
  · obtain ⟨cmd, hcmd, heq⟩ := List.mem_filterMap.mp h
    cases cmd with
    | place number ticket =>
      obtain rfl : ticket = t := Option.some.inj heq
      obtain ⟨c, hc, -⟩ := b.queued _ _ hcmd
      exact (List.getElem?_eq_some_iff.mp hc).1
    | shutdown => cases heq
  · obtain ⟨c, hc, -⟩ := (b.calls r hr).number
    exact (List.getElem?_eq_some_iff.mp hc).1

theorem Kept.place {number : String} (k : s.Kept) (h : s.place number = some s') : s'.Kept := by
  unfold SipThread.place at h
  split at h
  case isFalse => cases h
  obtain rfl := Option.some.inj h
  refine ⟨k.books.stand fun t c hc => ⟨c, ?_, rfl⟩, fun t c hc => ?_⟩
  · exact (List.getElem?_append_left (List.getElem?_eq_some_iff.mp hc).1).trans hc
  · rcases lt_or_ge t s.callers.length with hlt | hge
    · exact k.callers t c ((List.getElem?_append_left hlt).symm.trans hc)
    · -- the one who asks now
      rw [List.getElem?_append_right hge, List.getElem?_singleton] at hc
      have hnew : ¬ (t ∈ s.queued ∨ ∃ r ∈ s.all, r.ticket = t) := fun hmem => absurd (k.books.lt_of_mem hmem) (by omega)
      split at hc
      case isFalse => cases hc
      obtain rfl := Option.some.inj hc
      cases hl : s.pc.listens with
      | true => exact ⟨hl, fun hq => hnew (Or.inl hq), fun r hr heq => hnew (Or.inr ⟨r, hr, heq⟩)⟩
      | false => exact Or.inr ⟨rfl, Or.inl hl⟩

theorem grows_of_same (hl : s'.pc.listens = s.pc.listens) (hall : s'.all = s.all) (hlost : s'.lost = s.lost) :
    s.Grows s' where
  listens h := hl.trans h
  all r hr := ⟨r, hall ▸ hr, Follows.refl r⟩
  lost _ hr := hlost ▸ hr

theorem Books.trySend {cmd : Cmd} {callers : List Caller} (b : s.Books) (hl : s.pc.listens = true)
    (hroom : s.cmds.queued.length < CMD_CAPACITY) (hsame : s.SameCallers { s with callers })
    (hfresh : ∀ t ∈ cmd.ticket?, t ∉ s.queued ∧ ∀ r ∈ s.all, r.ticket ≠ t)
    (hnumber : ∀ number t, cmd = .place number t → ∃ c : Caller, callers[t]? = some c ∧ c.number = number)
    (hs' : s' = { s with cmds := s.cmds.trySend CMD_CAPACITY cmd, callers }) :
    s'.queued = s.queued ++ cmd.ticket?.toList ∧ s'.Books := by
  have hcmds : s.cmds.trySend CMD_CAPACITY cmd = { s.cmds with queued := s.cmds.queued ++ [cmd] } := if_pos hroom
  rw [hcmds] at hs'
  subst hs'
  have hqueued : (s.cmds.queued ++ [cmd]).filterMap Cmd.ticket? = s.queued ++ cmd.ticket?.toList := by
    rw [List.filterMap_append]
    cases cmd <;> rfl
  refine ⟨hqueued, ?_⟩
  refine
    { started := b.started, all := b.all, active := b.active, finished := b.finished, ended := b.ended
      custody := ?_
      calls := fun r hr => (b.calls r hr).mono (List.prefix_refl _) hsame
      queued := fun number t ht => ?_
      deaf := fun h => absurd (hl.symm.trans h) (by decide) }
  · change ((s.cmds.queued ++ [cmd]).filterMap Cmd.ticket? ++ s.all.map (·.ticket)).Nodup
    rw [hqueued]
    cases ht : cmd.ticket? with
    | none => simpa using b.custody
    | some t =>
      obtain ⟨hq, hall⟩ := hfresh t ht
      rw [Option.toList_some, List.append_assoc, List.singleton_append, List.nodup_middle, List.nodup_cons]
      refine ⟨fun hmem => ?_, b.custody⟩
      rcases List.mem_append.mp hmem with hmem | hmem
      · exact hq hmem
      · obtain ⟨r, hr, heq⟩ := List.mem_map.mp hmem
        exact hall r hr heq
  · rcases List.mem_append.mp ht with hold | hnew
    · obtain ⟨c, hc, heq⟩ := b.queued number t hold
      obtain ⟨c', hc', heq'⟩ := hsame t c hc
      exact ⟨c', hc', heq'.trans heq⟩
    · exact hnumber number t (List.mem_singleton.mp hnew).symm

theorem Kept.send (k : s.Kept) (h : s.send t = some s') : s'.Kept := by
  obtain ⟨c, hc, h⟩ := Option.bind_eq_some_iff.mp h
  split at h
  case h_2 => cases h
  rename_i hpc
  split_ifs at h with hroom
  have hs' := (Option.some.inj h).symm
  have hheard := k.callers t c hc
  rw [hpc] at hheard
  obtain ⟨hl, hq, hall⟩ := hheard
  have hset : (s.callers.set t { c with pc := .waiting })[t]? = some { c with pc := .waiting } :=
    List.getElem?_set_self (List.getElem?_eq_some_iff.mp hc).1
  obtain ⟨hqueued, b⟩ := k.books.trySend hl hroom (sameCallers_set hc rfl)
    (fun _ ht => by obtain rfl := Option.some.inj ht; exact ⟨hq, hall⟩)
    (fun number t' heq => by obtain ⟨rfl, rfl⟩ := Cmd.place.inj heq; exact ⟨_, hset, rfl⟩) hs'
  refine ⟨b, fun t' c' hc' => ?_⟩
  rw [hs'] at hc'
  have hpc' : s'.pc = s.pc := by rw [hs']
  by_cases ht : t = t'
  · subst ht
    obtain rfl := Option.some.inj (hset.symm.trans hc')
    exact Or.inl ⟨hpc' ▸ hl, by rw [hqueued]; simp [Cmd.ticket?]⟩
  · have hold := k.callers t' c' ((List.getElem?_set_ne ht).symm.trans hc')
    have hother : t' ∈ s'.queued ↔ t' ∈ s.queued := by
      rw [hqueued]
      simp [Cmd.ticket?, Ne.symm ht]
    have hsame : s'.all = s.all ∧ s'.calls = s.calls ∧ s'.lost = s.lost := by subst hs'; exact ⟨rfl, rfl, rfl⟩
    refine hold.grow (grows_of_same (by rw [hpc']) hsame.1 hsame.2.2) (fun hx => ?_) (fun hx => ?_)
    · rw [hx] at hold
      exact ⟨hpc' ▸ hl, fun hmem => hold.2.1 (hother.mp hmem), hsame.1 ▸ hold.2.2⟩
    · rw [hx] at hold
      exact hold.imp (fun ⟨_, hmem⟩ => ⟨hpc' ▸ hl, hother.mpr hmem⟩) (fun hr => hsame.2.1 ▸ hr)

theorem Kept.shutdown (k : s.Kept) (h : s.shutdown = some s') : s'.Kept := by
  unfold SipThread.shutdown at h
  split_ifs at h with hok
  obtain ⟨-, hl, hroom⟩ := hok
  have hs' := (Option.some.inj h).symm
  obtain ⟨hqueued, b⟩ := k.books.trySend hl hroom (fun t c hc => ⟨c, hc, rfl⟩) (fun t ht => by cases ht)
    (fun number t heq => by cases heq) hs'
  refine ⟨b, fun t c hc => ?_⟩
  have hnone : Cmd.shutdown.ticket?.toList = [] := rfl
  rw [hnone, List.append_nil] at hqueued
  have hold := k.callers t c (by subst hs'; exact hc)
  have hall : s'.all.Perm s.all := by subst hs'; exact List.Perm.refl _
  exact hold.frame hall hqueued (by rw [hs']) (fun r hr => by subst hs'; exact hr)
    fun r hr _ _ => by subst hs'; exact hr

theorem Kept.giveUp (k : s.Kept) (h : s.giveUp t = some s') : s'.Kept := by
  obtain ⟨c, hc, h⟩ := Option.bind_eq_some_iff.mp h
  split_ifs at h with hasks
  obtain rfl := Option.some.inj h
  refine ⟨k.books.stand (sameCallers_set hc rfl), fun t' c' hc' => ?_⟩
  rw [List.getElem?_set] at hc'
  split_ifs at hc' with ht hlt
  · obtain rfl := Option.some.inj hc'
    trivial
  · exact k.callers t' c' hc'

theorem Kept.dropTransport (k : s.Kept) (h : s.dropTransport = some s') : s'.Kept := by
  unfold SipThread.dropTransport at h
  split_ifs at h
  obtain rfl := Option.some.inj h
  exact ⟨k.books.stand fun t c hc => ⟨c, hc, rfl⟩, k.callers⟩

theorem started_recv {cmd : Cmd} {cmds : Pipe Cmd} (h : s.cmds.recv = some (cmd, cmds)) (hs' : s'.cmds = cmds) :
    s'.started = s.started ++ cmd.ticket?.toList ∧ s.queued = cmd.ticket?.toList ++ s'.queued := by
  obtain ⟨-, hread, -, hq⟩ := Pipe.recv_spec h
  rw [started, queued, queued, hs', hread, hq, List.filterMap_append, List.filterMap_cons]
  cases cmd <;> exact ⟨rfl, rfl⟩

theorem Kept.recv_place {number : String} {cmds : Pipe Cmd} (k : s.Kept) (hpc : s.pc = .serving)
    (h : s.cmds.recv = some (.place number t, cmds))
    (hs' : s' = { s with
      cmds, seq := s.seq + 1, active := s.active + 1
      calls := s.calls ++ [{ number, ticket := t, call := { callId := sipCallId (s.seq + 1) } }] }) : s'.Kept := by
  have b := k.books
  have hq := (Pipe.recv_spec h).2.2.2
  obtain ⟨hstarted, hqueued⟩ := @started_recv s s' _ _ h (by rw [hs'])
  simp only [Cmd.ticket?, Option.toList_some, List.singleton_append] at hstarted hqueued
  generalize hnew : ({ number, ticket := t, call := { callId := sipCallId (s.seq + 1) } } : RunningCall) = new at hs'
  have hall : s'.all.Perm (new :: s.all) := by
    subst hs'
    simp only [all, List.append_assoc, List.singleton_append]
    exact List.perm_middle
  have hmem : ∀ r, r ∈ s'.all ↔ r = new ∨ r ∈ s.all := fun r => hall.mem_iff.trans List.mem_cons
  have hsame : s.SameCallers s' := fun t c hc => ⟨c, by subst hs'; exact hc, rfl⟩
  have hgrows : s.Grows s' :=
    { listens := fun hl => by subst hs'; exact hl
      all := fun r hr => ⟨r, (hmem r).mpr (Or.inr hr), Follows.refl r⟩
      lost := fun r hr => by subst hs'; exact hr }
  have hticket : new.ticket = t := by rw [← hnew]
  refine ⟨⟨?_, ?_, ?_, ?_, fun r hr => ?_, fun n t' ht => ?_, ?_, fun hl => ?_, fun he => ?_⟩, fun t' c hc => ?_⟩
  · rw [hstarted, List.length_append, b.started, hs']
    rfl
  · rw [hall.length_eq, List.length_cons, b.all, hs']
  · subst hs'
    simp only [List.length_append, List.length_singleton, b.active]
    omega
  · -- the ticket goes from the channel to the call
    have hperm : (s'.queued ++ s'.all.map (·.ticket)).Perm (s.queued ++ s.all.map (·.ticket)) := by
      refine ((hall.map _).append_left _).trans ?_
      rw [hqueued, List.map_cons, hticket]
      exact List.perm_middle
    exact hperm.nodup_iff.mpr b.custody
  · rcases (hmem r).mp hr with rfl | hold
    · obtain ⟨c, hc, hnumber⟩ := b.queued number t (hq ▸ List.mem_cons_self)
      refine ⟨⟨s.seq, ?_, by rw [← hnew]⟩, ?_, [], by rw [← hnew]; exact Run.nil⟩
      · rw [hstarted, hticket, ← b.started]
        exact List.getElem?_concat_length
      · obtain ⟨c', hc', heq⟩ := hsame t c hc
        rw [hticket]
        exact ⟨c', hc', by rw [heq, hnumber, ← hnew]⟩
    · exact (b.calls r hold).mono (hstarted ▸ List.prefix_append _ _) hsame
  · have hold : Cmd.place n t' ∈ s.cmds.queued := by
      rw [hq]
      subst hs'
      exact List.mem_cons_of_mem _ ht
    obtain ⟨c, hc, hnumber⟩ := b.queued n t' hold
    obtain ⟨c', hc', heq⟩ := hsame t' c hc
    exact ⟨c', hc', heq.trans hnumber⟩
  · subst hs'
    exact b.finished
  · subst hs'
    rw [hpc] at hl
    cases hl
  · subst hs'
    rw [hpc] at he
    cases he
  · have hold := k.callers t' c (by subst hs'; exact hc)
    have hl : s'.pc.listens = true := by subst hs'; rw [hpc]; rfl
    refine hold.grow hgrows (fun hx => ?_) (fun hx => ?_)
    · rw [hx] at hold
      obtain ⟨-, hnot, hnone⟩ := hold
      rw [hqueued, List.mem_cons, not_or] at hnot
      refine ⟨hl, hnot.2, fun r hr => ?_⟩
      rcases (hmem r).mp hr with rfl | hr
      · rw [hticket]
        exact Ne.symm hnot.1
      · exact hnone r hr
    · rw [hx] at hold
      rcases hold with ⟨-, hin⟩ | ⟨r, hr, hwait⟩
      · rw [hqueued, List.mem_cons] at hin
        rcases hin with rfl | hin
        · refine Or.inr ⟨new, ?_, hticket, by rw [← hnew]⟩
          subst hs'
          exact List.mem_append_right _ (List.mem_singleton.mpr rfl)
        · exact Or.inl ⟨hl, hin⟩
      · refine Or.inr ⟨r, ?_, hwait⟩
        subst hs'
        exact List.mem_append_left _ hr

theorem Kept.stop {cmds : Pipe Cmd} (k : s.Kept) (hpc : s.pc = .serving) (hs' : s' = { s with cmds, pc := .stopping })
    (hsub : ∀ cmd ∈ cmds.queued, cmd ∈ s.cmds.queued) (hstarted : s'.started = s.started)
    (hqueued : s'.queued = s.queued) : s'.Kept := by
  have hl : s'.pc.listens = s.pc.listens := by rw [hs', hpc]; rfl
  have hended : s'.pc = .ended → s'.calls = [] := fun he => by rw [hs'] at he; cases he
  subst hs'
  exact ⟨k.books.frame (List.Perm.refl _) hstarted hqueued hsub (fun t c hc => ⟨c, hc, rfl⟩) rfl k.books.active
    k.books.finished hl hended, fun t c hc =>
    (k.callers t c hc).frame (List.Perm.refl _) hqueued hl (fun _ hr => hr) fun _ hr _ _ => hr⟩

theorem Kept.recv (k : s.Kept) (h : s.recv = some s') : s'.Kept := by
  unfold SipThread.recv at h
  split at h
  case isFalse => cases h
  rename_i hpc
  split at h
  case h_1 number ticket cmds hrecv => exact k.recv_place hpc hrecv (Option.some.inj h).symm
  case h_2 cmds hrecv =>
    have hs' := (Option.some.inj h).symm
    obtain ⟨hstarted, hqueued⟩ := @started_recv s s' _ _ hrecv (by rw [hs'])
    have hq := (Pipe.recv_spec hrecv).2.2.2
    refine k.stop hpc hs' (fun cmd hcmd => hq ▸ List.mem_cons_of_mem _ hcmd) ?_ hqueued.symm
    exact hstarted.trans (List.append_nil _)
  case h_3 =>
    split_ifs at h
    have hs' : s' = { s with cmds := s.cmds, pc := .stopping } := (Option.some.inj h).symm
    exact k.stop hpc hs' (fun _ h => h) (by rw [hs']; rfl) (by rw [hs']; rfl)

theorem heard_tell {tickets : List ℕ} (hcallers : s'.callers = s.callers) (k : s.Kept) (g : s.Grows s')
    (htold : ∀ t ∈ tickets, ∀ c, s.callers[t]? = some c → c.pc.asks = true → s'.Heard t (.told reply))
    (hrest : ∀ t, t ∉ tickets → ∀ c, s.callers[t]? = some c → c.pc.asks = true → s'.Heard t c.pc) :
    ∀ t c, (s'.tell tickets reply).callers[t]? = some c → s'.Heard t c.pc := by
  intro t c hc
  rw [getElem?_tell, hcallers] at hc
  obtain ⟨c₀, hc₀, rfl⟩ := Option.map_eq_some_iff.mp hc
  cases hasks : c₀.pc.asks with
  | true =>
    by_cases ht : t ∈ tickets
    · rw [if_pos ht, Caller.tell, if_pos hasks]
      exact htold t ht c₀ hc₀ hasks
    · rw [if_neg ht]
      exact hrest t ht c₀ hc₀ hasks
  | false =>
    have hsame : (if t ∈ tickets then c₀.tell reply else c₀) = c₀ := by
      simp [Caller.tell, hasks]
    rw [hsame]
    refine (k.callers t c₀ hc₀).grow g (fun hx => ?_) (fun hx => ?_)
    all_goals
      rw [hx] at hasks
      cases hasks

theorem Kept.finish (k : s.Kept) (h : s.finish i = some s') : s'.Kept := by
  obtain ⟨r, hr, h⟩ := Option.bind_eq_some_iff.mp h
  split at h
  case h_2 => cases h
  rename_i hpc hret
  have hs' := (Option.some.inj h).symm
  have b := k.books
  obtain ⟨before, after, hcalls, herase, -⟩ := exists_split hr
  rw [herase] at hs'
  have hall : s'.all.Perm s.all := by
    subst hs'
    simp only [all, hcalls, List.append_assoc, List.cons_append]
    refine List.Perm.append_left before ?_
    -- the call goes past those after it and those that have finished
    rw [← List.append_assoc, ← List.append_assoc]
    exact List.perm_middle.trans (by simp)
  have hreply : r.call.reply ≠ none := by
    obtain ⟨tr, hrun⟩ := (b.calls r (List.mem_append_left _ (List.mem_of_getElem? hr))).run
    obtain ⟨story, kc⟩ := SipCall.exists_kept hrun
    exact kc.reply_of_returned hret
  have hsame : s'.pc = s.pc ∧ s'.cmds = s.cmds ∧ s'.callers = s.callers ∧ s'.seq = s.seq ∧ s'.lost = s.lost := by
    subst hs'
    exact ⟨rfl, rfl, rfl, rfl, rfl⟩
  obtain ⟨hpc', hcmds, hcallers, hseq, hlost⟩ := hsame
  have hstarted : s'.started = s.started := by rw [started, hcmds, started]
  have hqueued : s'.queued = s.queued := by rw [queued, hcmds, queued]
  refine ⟨b.frame hall hstarted hqueued (fun _ h => hcmds ▸ h) (fun t c hc => ⟨c, hcallers ▸ hc, rfl⟩) hseq ?_ ?_
    (by rw [hpc']) (fun he => ?_), fun t c hc => ?_⟩
  · have hactive := b.active
    subst hs'
    simp only [hcalls, List.length_append, List.length_cons] at hactive ⊢
    omega
  · subst hs'
    intro x hx
    rcases List.mem_append.mp hx with hx | hx
    · exact b.finished x hx
    · rw [List.mem_singleton.mp hx]
      exact hret
  · rw [hpc', hpc] at he
    cases he
  · refine (k.callers t c (hcallers ▸ hc)).frame hall hqueued (by rw [hpc']) (fun x hx => hlost ▸ hx)
      fun x hx _ hnone => ?_
    -- a call that has returned has replied
    have hne : x ≠ r := fun heq => hreply (heq ▸ hnone)
    rw [hcalls] at hx
    subst hs'
    simpa [hne] using hx

theorem mem_unreplied {calls : List RunningCall} :
    t ∈ unreplied calls ↔ ∃ r ∈ calls, r.ticket = t ∧ r.call.reply = none := by
  simp only [unreplied, List.mem_map, List.mem_filter, Option.isNone_iff_eq_none]
  tauto

/-- Calls are cut short: whoever still waits for one of them learns that it is gone. -/
theorem Kept.cut {gone : List RunningCall} (k : s.Kept) (b : s'.Books) (hall : s'.all.Perm s.all)
    (hcallers : s'.callers = s.callers) (hqueued : s'.queued = s.queued) (hl : s'.pc.listens = s.pc.listens)
    (hcalls : ∀ r ∈ s.calls, r ∈ s'.calls ∨ r ∈ gone) (hlost : s'.lost = s.lost ++ gone) :
    (s'.tell (unreplied gone) (.error .runtimeGone)).Kept := by
  have g : s.Grows s' :=
    { listens := fun h => hl.trans h
      all := fun x hx => ⟨x, hall.mem_iff.mpr hx, Follows.refl x⟩
      lost := fun x hx => hlost ▸ List.mem_append_left _ hx }
  refine ⟨b.tell _ _, heard_tell hcallers k g (fun t ht _ _ _ => ?_) (fun t ht c hc _ => ?_)⟩
  · obtain ⟨r, hr, hwait⟩ := mem_unreplied.mp ht
    exact Or.inr ⟨rfl, Or.inr ⟨r, hlost ▸ List.mem_append_right _ hr, hwait⟩⟩
  · refine (k.callers t c hc).frame hall hqueued hl g.lost fun r hr hrt hnone => ?_
    rcases hcalls r hr with hr' | hr'
    · exact hr'
    · exact absurd (mem_unreplied.mpr ⟨r, hr', hrt, hnone⟩) ht

theorem Kept.panicked (k : s.Kept) (h : s.panicked i = some s') : s'.Kept := by
  obtain ⟨r, hr, h⟩ := Option.bind_eq_some_iff.mp h
  split at h
  case h_1 => cases h
  case h_3 => cases h
  rename_i hpc _
  obtain rfl := Option.some.inj h
  have b := k.books
  obtain ⟨before, after, hcalls, herase, -⟩ := exists_split hr
  rw [herase]
  generalize hs₁ : ({ s with calls := before ++ after, lost := s.lost ++ [r] } : SipThread) = s₁
  have hall : s₁.all.Perm s.all := by
    subst hs₁
    simp only [all, hcalls, List.append_assoc, List.cons_append]
    refine List.Perm.append_left before ?_
    rw [← List.append_assoc, ← List.append_assoc, ← List.append_assoc]
    exact List.perm_append_comm.trans (by simp)
  have hsame : s₁.pc = s.pc ∧ s₁.cmds = s.cmds ∧ s₁.callers = s.callers ∧ s₁.seq = s.seq ∧
      s₁.finished = s.finished := by
    subst hs₁
    exact ⟨rfl, rfl, rfl, rfl, rfl⟩
  obtain ⟨hpc', hcmds, hcallers, hseq, hfinished⟩ := hsame
  have hstarted : s₁.started = s.started := by rw [started, hcmds, started]
  have hqueued : s₁.queued = s.queued := by rw [queued, hcmds, queued]
  refine k.cut (b.frame hall hstarted hqueued (fun _ h => hcmds ▸ h) (fun t c hc => ⟨c, hcallers ▸ hc, rfl⟩) hseq ?_
    (hfinished ▸ b.finished) (by rw [hpc']) fun he => ?_) hall hcallers hqueued (by rw [hpc']) (fun x hx => ?_)
    (by rw [← hs₁])
  · have hactive := b.active
    subst hs₁
    simp only [hcalls, List.length_append, List.length_cons, List.length_nil] at hactive ⊢
    omega
  · rw [hpc', hpc] at he
    cases he
  · rw [hcalls] at hx
    subst hs₁
    simp only [List.mem_append, List.mem_cons, List.not_mem_nil, or_false] at hx ⊢
    tauto

theorem Kept.dropTasks (k : s.Kept) (h : s.dropTasks = some s') : s'.Kept := by
  unfold SipThread.dropTasks at h
  split_ifs at h with hpc
  obtain rfl := Option.some.inj h
  have b := k.books
  have hl : ({ s with pc := .ended, calls := [], lost := s.lost ++ s.calls } : SipThread).pc.listens =
      s.pc.listens := by
    rw [hpc]
    rfl
  have hall : (SipThread.all { s with pc := .ended, calls := [], lost := s.lost ++ s.calls }).Perm s.all := by
    simp only [all, List.nil_append]
    rw [← List.append_assoc]
    exact List.perm_append_comm
  refine k.cut (b.frame hall rfl rfl (fun _ h => h) (fun t c hc => ⟨c, hc, rfl⟩) rfl ?_ b.finished hl fun _ => rfl) hall
    rfl rfl hl (fun r hr => Or.inr hr) rfl
  simp only [List.length_nil, List.length_append, b.active]
  omega

theorem mem_senders {c : Caller} (hc : s.callers[t]? = some c) (hpc : c.pc = .sending) : t ∈ s.senders := by
  refine List.mem_filter.mpr ⟨List.mem_range.mpr (List.getElem?_eq_some_iff.mp hc).1, ?_⟩
  rw [hc, Option.any_some, hpc]

theorem Kept.dropReceiver (k : s.Kept) (h : s.dropReceiver = some s') : s'.Kept := by
  unfold SipThread.dropReceiver at h
  split_ifs at h with hpc
  obtain rfl := Option.some.inj h
  have b := k.books
  have hl : s.pc.listens ≠ false := by rw [hpc]; decide
  have b' : Books { s with pc := .deaf, cmds := { s.cmds with queued := [] } } :=
    { started := b.started, all := b.all, active := b.active, finished := b.finished
      custody := b.custody.sublist (List.sublist_append_right _ _)
      calls := fun r hr => (b.calls r hr).mono (List.prefix_refl _) fun t c hc => ⟨c, hc, rfl⟩
      queued := fun _ _ ht => by cases ht
      deaf := fun _ => rfl
      ended := fun h => by cases h }
  have g : s.Grows { s with pc := .deaf, cmds := { s.cmds with queued := [] } } :=
    ⟨fun h => absurd h hl, fun r hr => ⟨r, hr, Follows.refl r⟩, fun _ hr => hr⟩
  refine ⟨b'.tell _ _,
    heard_tell (s := s) rfl k g (fun _ _ _ _ _ => Or.inr ⟨rfl, Or.inl rfl⟩) fun t ht c hc hasks => ?_⟩
  rw [List.mem_append, not_or] at ht
  have hold := k.callers t c hc
  cases hx : c.pc with
  | sending => exact absurd (mem_senders hc hx) ht.2
  | waiting =>
    rw [hx] at hold
    rcases hold with ⟨-, hin⟩ | hcall
    · exact absurd hin ht.1
    · exact Or.inr hcall
  | told | dropped =>
    rw [hx] at hasks
    cases hasks

theorem replied_eq_true {taken : Bool} (h : s.lets t (.replied taken) = true) {c : Caller} (hc : s.callers[t]? = some c)
    (hasks : c.pc.asks = true) : taken = true := by
  simpa [lets, hc, hasks] using h

/-- One of the calls has taken a step, and is still its caller's. -/
structure Stepped (s s' : SipThread) (r r' : RunningCall) : Prop where
  follows : Follows r r'
  number : r'.number = r.number
  run : ∃ tr, Run SipCall.step Always { callId := r'.call.callId } tr r'.call
  here : r ∈ s.calls
  calls : ∃ before after, s.calls = before ++ r :: after ∧ s' = { s with calls := before ++ r' :: after }

theorem Stepped.mem_calls {r' : RunningCall} (h : Stepped s s' r r') : r' ∈ s'.calls := by
  obtain ⟨before, after, -, rfl⟩ := h.calls
  exact List.mem_append_right _ List.mem_cons_self

theorem Stepped.mem {r' x : RunningCall} (h : Stepped s s' r r') :
    (x ∈ s'.all → x = r' ∨ x ∈ s.all) ∧ (x ∈ s.all → x = r ∨ x ∈ s'.all) ∧ (x ∈ s.calls → x = r ∨ x ∈ s'.calls) := by
  obtain ⟨before, after, hcalls, hs'⟩ := h.calls
  have hcalls' : s'.calls = before ++ r' :: after := by rw [hs']
  have hrest : s'.finished = s.finished ∧ s'.lost = s.lost := by rw [hs']; exact ⟨rfl, rfl⟩
  simp only [all, hcalls, hcalls', hrest, List.mem_append, List.mem_cons]
  tauto

theorem Books.stepped {r' : RunningCall} (b : s.Books) (h : Stepped s s' r r') : s'.Books := by
  have hown : s.Own r := b.calls r (List.mem_append_left _ h.here)
  have hmem := fun x => Stepped.mem (x := x) h
  obtain ⟨before, after, hcalls, hs'⟩ := h.calls
  have hsame : s.SameCallers s' := fun t c hc => ⟨c, by subst hs'; exact hc, rfl⟩
  have hstarted : s'.started = s.started := by subst hs'; rfl
  have htickets : s'.all.map (·.ticket) = s.all.map (·.ticket) := by
    have hcalls' : s'.calls = before ++ r' :: after := by rw [hs']
    have hrest : s'.finished = s.finished ∧ s'.lost = s.lost := by rw [hs']; exact ⟨rfl, rfl⟩
    simp only [SipThread.all, hcalls, hcalls', hrest, List.map_append, List.map_cons, h.follows.ticket]
  refine ⟨?_, ?_, ?_, ?_, fun x hx => ?_, ?_, ?_, ?_, fun he => ?_⟩
  · rw [hstarted, b.started, hs']
  · rw [← List.length_map (·.ticket), htickets, List.length_map, b.all, hs']
  · have hactive := b.active
    subst hs'
    simpa [hcalls] using hactive
  · rw [htickets]
    have hcustody := b.custody
    subst hs'
    exact hcustody
  · rcases (hmem x).1 hx with rfl | hold
    · have hown' := hown.mono (hstarted ▸ List.prefix_refl _) hsame
      refine ⟨?_, ?_, h.run⟩
      · rw [h.follows.ticket, h.follows.callId]
        exact hown'.named
      · rw [h.follows.ticket, h.number]
        exact hown'.number
    · exact (b.calls x hold).mono (hstarted ▸ List.prefix_refl _) hsame
  · subst hs'
    exact b.queued
  · subst hs'
    exact b.finished
  · subst hs'
    exact b.deaf
  · have hnone : s.calls = [] := b.ended (by subst hs'; exact he)
    exact absurd h.here (by rw [hnone]; exact List.not_mem_nil)

theorem Stepped.grows {r' : RunningCall} (h : Stepped s s' r r') : s.Grows s' := by
  have hmem := fun x => Stepped.mem (x := x) h
  obtain ⟨before, after, hcalls, hs'⟩ := h.calls
  refine ⟨fun hl => by subst hs'; exact hl, fun x hx => ?_, fun x hx => by subst hs'; exact hx⟩
  rcases (hmem x).2.1 hx with rfl | hold
  · exact ⟨r', List.mem_append_left _ h.mem_calls, h.follows⟩
  · exact ⟨x, hold, Follows.refl x⟩

theorem Stepped.heard {r' : RunningCall} {x : CallerPc} (h : Stepped s s' r r')
    (hstill : t ≠ r.ticket ∨ r'.call.reply = r.call.reply) (hold : s.Heard t x) : s'.Heard t x := by
  have hmem := fun y => Stepped.mem (x := y) h
  have hsame : s'.pc = s.pc ∧ s'.queued = s.queued := by
    obtain ⟨before, after, -, rfl⟩ := h.calls
    exact ⟨rfl, rfl⟩
  refine hold.grow h.grows (fun hx => ?_) (fun hx => ?_)
  · rw [hx] at hold
    refine ⟨hsame.1 ▸ hold.1, hsame.2 ▸ hold.2.1, fun y hy => ?_⟩
    rcases (hmem y).1 hy with rfl | hy
    · rw [h.follows.ticket]
      exact hold.2.2 r (List.mem_append_left _ h.here)
    · exact hold.2.2 y hy
  · rw [hx] at hold
    refine hold.imp (fun ⟨hl, hin⟩ => ⟨hsame.1 ▸ hl, hsame.2 ▸ hin⟩) ?_
    rintro ⟨y, hy, hyt, hnone⟩
    rcases (hmem y).2.2 hy with rfl | hy
    · rcases hstill with hne | heq
      · exact absurd hyt.symm hne
      · exact ⟨r', h.mem_calls, h.follows.ticket.trans hyt, heq.trans hnone⟩
    · exact ⟨y, hy, hyt, hnone⟩

theorem Kept.call (k : s.Kept) (h : s.call i now input = some s') : s'.Kept := by
  obtain ⟨r, hr, h⟩ := Option.bind_eq_some_iff.mp h
  split_ifs at h with hok
  obtain ⟨c, hstep, h⟩ := Option.bind_eq_some_iff.mp h
  obtain ⟨before, after, hcalls, -, hset⟩ := exists_split hr
  have hs' := Option.some.inj h
  rw [hset] at hs'
  have hhere := List.mem_of_getElem? hr
  obtain ⟨tr, hrun⟩ := (k.books.calls r (List.mem_append_left _ hhere)).run
  obtain ⟨story, kc⟩ := SipCall.exists_kept hrun
  have hid := SipCall.callId_of_step (SipCall.step_cases hstep)
  have hrun' : Run SipCall.step Always { callId := c.callId } (tr ++ [(now, input)]) c :=
    hid ▸ hrun.snoc trivial hstep
  have hnew (f : Follows r { r with call := c }) :
      Stepped s { s with calls := before ++ { r with call := c } :: after } r { r with call := c } :=
    ⟨f, rfl, ⟨_, hrun'⟩, hhere, before, after, hcalls, rfl⟩
  rcases kc.replying (SipCall.step_cases hstep) with
    ⟨hreply, hhanded⟩ | ⟨e, hnone, hreply, hhanded⟩ | ⟨taken, rfl, hnone, hreply, hhanded⟩
  · have hst := hnew ⟨rfl, hid, fun x hx => hreply.trans hx, fun hh => hhanded.trans hh⟩
    have hquiet : s' = { s with calls := before ++ { r with call := c } :: after } := by
      rw [← hs', hreply]
      cases r.call.reply <;> rfl
    rw [hquiet]
    exact ⟨k.books.stepped hst, fun t c hc => hst.heard (Or.inr hreply) (k.callers t c hc)⟩
  all_goals
    have hst := hnew ⟨rfl, hid, fun x hx => (by rw [hnone] at hx; cases hx),
      fun hh => absurd hnone (kc.reply_of_handed hh)⟩
    rw [hnone, hreply] at hs'
    subst hs'
    have hmem := List.mem_append_left (s.finished ++ s.lost) hst.mem_calls
    refine ⟨(k.books.stepped hst).tell _ _, heard_tell (s := s) rfl k hst.grows (fun t ht c₀ hc₀ hasks => ?_)
      fun t ht c₀ hc₀ hasks => hst.heard (Or.inl fun heq => ht (List.mem_singleton.mpr heq)) (k.callers t c₀ hc₀)⟩
    obtain rfl := List.mem_singleton.mp ht
  · exact Or.inl ⟨_, hmem, rfl, hreply⟩
  · exact ⟨_, hmem, rfl, rfl, hhanded.trans (replied_eq_true hok.2 hc₀ hasks)⟩

theorem Kept.step {a : ThreadAct} (k : s.Kept) (h : s.step a = some s') : s'.Kept := by
  cases a with
  | place => exact k.place h
  | send => exact k.send h
  | giveUp => exact k.giveUp h
  | shutdown => exact k.shutdown h
  | dropTransport => exact k.dropTransport h
  | recv => exact k.recv h
  | call => exact k.call h
  | finish => exact k.finish h
  | panicked => exact k.panicked h
  | dropReceiver => exact k.dropReceiver h
  | dropTasks => exact k.dropTasks h

theorem kept_init : Kept {} where
  books := by
    refine ⟨rfl, rfl, rfl, List.nodup_nil, ?_, ?_, ?_, ?_, fun _ => rfl⟩
    all_goals simp [all, ThreadPc.listens]
  callers t c hc := by cases hc

theorem kept_of_run {tr : List ThreadAct} (h : Run step Always {} tr s) : s.Kept :=
  h.invariant (I := Kept) kept_init fun _ _ _ k _ hs => k.step hs

theorem settled_tell {c : Caller} (tickets : List ℕ) (reply : Except SipError String) (hc : s.callers[t]? = some c)
    (hdone : c.pc.asks = false) : (s.tell tickets reply).callers[t]? = some c := by
  rw [getElem?_tell, hc, Option.map_some]
  simp [Caller.tell, hdone]

theorem settled_set {t' : ℕ} {c c' : Caller} {pc : CallerPc} (hc : s.callers[t]? = some c) (hdone : c.pc.asks = false)
    (hc' : s.callers[t']? = some c') (hasks : c'.pc.asks = true) :
    (s.callers.set t' { c' with pc })[t]? = some c := by
  have hne : t' ≠ t := by
    rintro rfl
    obtain rfl := Option.some.inj (hc.symm.trans hc')
    rw [hasks] at hdone
    cases hdone
  rw [List.getElem?_set_ne hne, hc]

theorem settled_step {a : ThreadAct} {c : Caller} (h : s.step a = some s') (hc : s.callers[t]? = some c)
    (hdone : c.pc.asks = false) : s'.callers[t]? = some c := by
  cases a with
  | place =>
    simp only [step, place] at h
    split at h
    · obtain rfl := Option.some.inj h
      exact (List.getElem?_append_left (List.getElem?_eq_some_iff.mp hc).1).trans hc
    · cases h
  | send =>
    obtain ⟨c', hc', h⟩ := Option.bind_eq_some_iff.mp h
    split at h
    · rename_i hpc
      split_ifs at h
      obtain rfl := Option.some.inj h
      exact settled_set hc hdone hc' (by rw [hpc]; rfl)
    · cases h
  | giveUp =>
    obtain ⟨c', hc', h⟩ := Option.bind_eq_some_iff.mp h
    split_ifs at h with hasks
    obtain rfl := Option.some.inj h
    exact settled_set hc hdone hc' hasks
  | shutdown =>
    simp only [step, shutdown] at h
    split_ifs at h
    obtain rfl := Option.some.inj h
    exact hc
  | dropTransport =>
    simp only [step, dropTransport] at h
    split_ifs at h
    obtain rfl := Option.some.inj h
    exact hc
  | recv =>
    simp only [step, recv] at h
    split at h
    case isFalse => cases h
    split at h
    case h_3 =>
      split_ifs at h
      obtain rfl := Option.some.inj h
      exact hc
    all_goals
      obtain rfl := Option.some.inj h
      exact hc
  | call =>
    obtain ⟨r, -, h⟩ := Option.bind_eq_some_iff.mp h
    split_ifs at h
    obtain ⟨c', -, h⟩ := Option.bind_eq_some_iff.mp h
    obtain rfl := Option.some.inj h
    split
    · exact settled_tell _ _ hc hdone
    · exact hc
  | finish =>
    obtain ⟨r, -, h⟩ := Option.bind_eq_some_iff.mp h
    split at h
    · obtain rfl := Option.some.inj h
      exact hc
    · cases h
  | panicked =>
    obtain ⟨r, -, h⟩ := Option.bind_eq_some_iff.mp h
    split at h
    case h_1 | h_3 => cases h
    obtain rfl := Option.some.inj h
    exact settled_tell _ _ hc hdone
  | dropReceiver =>
    simp only [step, dropReceiver] at h
    split_ifs at h
    obtain rfl := Option.some.inj h
    exact settled_tell _ _ hc hdone
  | dropTasks =>
    simp only [step, dropTasks] at h
    split_ifs at h
    obtain rfl := Option.some.inj h
    exact settled_tell _ _ hc hdone

theorem Kept.asks_of_ended {c : Caller} (k : s.Kept) (hpc : s.pc = .ended) (hc : s.callers[t]? = some c) :
    c.pc.asks = false := by
  have hold := k.callers t c hc
  have hl : s.pc.listens ≠ true := by rw [hpc]; decide
  cases hx : c.pc with
  | sending =>
    rw [hx] at hold
    exact absurd hold.1 hl
  | waiting =>
    rw [hx] at hold
    rcases hold with ⟨h, -⟩ | ⟨r, hr, -⟩
    · exact absurd h hl
    · rw [k.books.ended hpc] at hr
      cases hr
  | told | dropped => rfl

/-- A caller who asks waits for the thread, which can go on, or for its own call. -/
theorem Kept.not_stuck {c : Caller} (k : s.Kept) (hc : s.callers[t]? = some c) (hasks : c.pc.asks = true) :
    (∃ a ∈ [ThreadAct.send t, .recv, .dropReceiver, .dropTasks], ∃ s', s.step a = some s') ∨
      s.pc = .serving ∧ ∃ r ∈ s.calls, r.ticket = t ∧ r.call.reply = none := by
  have hold := k.callers t c hc
  cases hpc : s.pc with
  | stopping => exact Or.inl ⟨.dropReceiver, by simp, _, if_pos hpc⟩
  | deaf => exact Or.inl ⟨.dropTasks, by simp, _, if_pos hpc⟩
  | ended =>
    rw [k.asks_of_ended hpc hc] at hasks
    cases hasks
  | serving =>
    have hrecv : s.cmds.queued ≠ [] → ∃ s', s.step .recv = some s' := fun hne => by
      obtain ⟨cmd, rest, hq⟩ := List.exists_cons_of_ne_nil hne
      simp only [SipThread.step, SipThread.recv, hpc, Pipe.recv, hq, if_true]
      cases cmd <;> exact ⟨_, rfl⟩
    cases hx : c.pc with
    | sending =>
      -- either there is room, or there is something to read
      by_cases hroom : s.cmds.queued.length < CMD_CAPACITY
      · exact Or.inl ⟨.send t, by simp, by simp [SipThread.step, SipThread.send, hc, hx, hroom]⟩
      · have hne : s.cmds.queued ≠ [] := by
          intro hnil
          rw [hnil] at hroom
          exact hroom (by decide)
        exact Or.inl ⟨.recv, by simp, hrecv hne⟩
    | waiting =>
      rw [hx] at hold
      rcases hold with ⟨-, hin⟩ | hcall
      · obtain ⟨cmd, hcmd, -⟩ := List.mem_filterMap.mp hin
        exact Or.inl ⟨.recv, by simp, hrecv (List.ne_nil_of_mem hcmd)⟩
      · exact Or.inr ⟨rfl, hcall⟩
    | told | dropped =>
      rw [hx] at hasks
      cases hasks

theorem Books.callIds_nodup (b : s.Books) : (s.all.map (·.call.callId)).Nodup := by
  have htickets : s.all.Pairwise fun r r' => r.ticket ≠ r'.ticket :=
    List.pairwise_map.mp (b.custody.sublist (List.sublist_append_right _ _))
  refine List.pairwise_map.mpr (htickets.imp_of_mem fun hr hr' hne heq => ?_)
  obtain ⟨j, hj, hid⟩ := (b.calls _ hr).named
  obtain ⟨j', hj', hid'⟩ := (b.calls _ hr').named
  obtain rfl : j = j' := Nat.succ.inj (sipCallId_injective (hid.symm.trans (heq.trans hid')))
  exact hne (Option.some.inj (hj.symm.trans hj'))

/-- What a call that has come to its end has said. -/
def ToldItsEnd (c : SipCall) : Prop :=
  c.reply ≠ none ∧ (c.handed = true → ∃ story reason, Story c.final story ∧
    (c.eventsOpen = true → c.events.sent = story) ∧ .terminated reason ∈ story)

theorem Kept.told_end (k : s.Kept) (hr : r ∈ s.finished) : ToldItsEnd r.call := by
  obtain ⟨tr, hrun⟩ := (k.books.calls r (List.mem_append_right _ (List.mem_append_left _ hr))).run
  obtain ⟨story, kc⟩ := SipCall.exists_kept hrun
  have hp := kc.place
  rw [k.books.finished r hr] at hp
  obtain ⟨-, hreply, -, ⟨reason, hin⟩ | ⟨hno, -⟩⟩ := hp
  · exact ⟨hreply, fun _ => ⟨story, reason, kc.allowed, kc.heard, hin⟩⟩
  · exact ⟨hreply, fun hh => absurd hh (by simp [hno])⟩

/-- Whoever asks for a call, gives up or stops the thread, in whatever order it all happens: the `n`-th call that is
started is `kutsu-n`, for the `n`-th caller whose command was taken, and dials the number of that caller; no caller has
two. A caller is told what became of its own call, or that the thread or the call is gone, and nothing else afterwards;
one who still asks waits for the thread, which can go on, or for its own call. A call that has come to its end has
replied and, if it was handed over, said why it ended. The count of active calls is that of the calls that run and those
that were cut short. -/
theorem calls_placed {tr tr' : List ThreadAct} (h : Run step Always {} tr s) (h' : Run step Always s tr' s') :
    (s.active = s.calls.length + s.lost.length ∧ s.all.length = s.started.length ∧ (s.all.map (·.ticket)).Nodup ∧
        (s.all.map (·.call.callId)).Nodup ∧ ∀ r ∈ s.all, s.Own r) ∧
      (∀ t c, s.callers[t]? = some c → s.Heard t c.pc ∧ (c.pc.asks = false → s'.callers[t]? = some c) ∧
        (c.pc.asks = true → (∃ a ∈ [ThreadAct.send t, .recv, .dropReceiver, .dropTasks], ∃ s', s.step a = some s') ∨
          s.pc = .serving ∧ ∃ r ∈ s.calls, r.ticket = t ∧ r.call.reply = none)) ∧
      (∀ r ∈ s.finished, ToldItsEnd r.call) ∧
      (s.pc = .ended → s.calls = [] ∧ ∀ c ∈ s.callers, c.pc.asks = false) := by
  have k := kept_of_run h
  have b := k.books
  refine ⟨⟨b.active, b.all.trans b.started.symm, b.custody.sublist (List.sublist_append_right _ _), b.callIds_nodup,
    b.calls⟩, fun t c hc => ⟨k.callers t c hc, fun hdone => ?_, k.not_stuck hc⟩, fun r hr => k.told_end hr,
    fun he => ⟨b.ended he, fun c hc => ?_⟩⟩
  · exact h'.invariant (I := fun x => x.callers[t]? = some c) hc fun _ _ _ hx _ hs => settled_step hs hx hdone
  · obtain ⟨t, hc⟩ := List.mem_iff_getElem?.mp hc
    exact k.asks_of_ended he hc

/-- One call finds the line busy; the thread is stopped while another is being set up. -/
theorem calls_placed_stopped : ∃ s : SipThread, s.pc = .ended ∧ s.calls = [] ∧ s.active = 1 ∧
    s.callers.map (·.pc) = [.told (.ok (sipCallId 1)), .told (.error .runtimeGone)] ∧
    (∀ t c, s.callers[t]? = some c → s.Heard t c.pc) ∧ ∀ r ∈ s.finished, ToldItsEnd r.call := by
  have hrun : Run step Always {} [.place "600", .send 0, .recv, .call 0 0 (.mediaBuilt (.ok ())),
      .call 0 1 (.made (.ok ())), .call 0 1 (.replied true),
      .call 0 900 (.completed (.error (.failed 486 "Busy Here"))),
      .call 0 900 .eventSent, .finish 0, .place "601", .send 1, .shutdown, .recv, .call 0 950 (.mediaBuilt (.ok ())),
      .recv, .dropReceiver, .dropTasks] _ := run_of_exec rfl
  obtain ⟨-, hcallers, hfinished, -⟩ := calls_placed hrun .nil
  exact ⟨_, rfl, rfl, rfl, rfl, fun t c hc => (hcallers t c hc).1, hfinished⟩

end SipThread

end Kutsu
