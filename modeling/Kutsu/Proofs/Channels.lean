import Kutsu.Proofs.Moves

/-! Following one attempt through the steps of everyone, and the state of its cancel
channel on the way. -/

namespace Kutsu

inductive Stage.Handed : Stage → Stage → Prop where
  | claim : Handed .registered .claimed
  | ring : Handed .claimed .rung
  | spawn : Handed .rung .start

theorem Stage.Handed.target {p q : Stage} (h : Stage.Handed p q) :
    q = .claimed ∨ q = .rung ∨ q = .start := by
  cases h with
  | claim => exact Or.inl rfl
  | ring => exact Or.inr (Or.inl rfl)
  | spawn => exact Or.inr (Or.inr rfl)

structure Attempt.Same (a' a : Attempt) : Prop where
  entry : a'.entry = a.entry
  probe : a'.probe = a.probe

theorem Attempt.Same.refl (a : Attempt) : a.Same a := ⟨rfl, rfl⟩

theorem Attempt.Same.phase (a : Attempt) (ph : Phase) : Attempt.Same { a with phase := ph } a := ⟨rfl, rfl⟩

namespace Sys

variable {cfg : ServerConfig} {act : Act} {s s' : Sys} {tok : Token} {a a' : Attempt}

inductive Moved (cfg : ServerConfig) (s s' : Sys) (act : Act) (tok : Token) (a a' : Attempt) :
    Prop where
  | still (h : a' = a)
  | run {input : RunInput} {eff : Effect} (hact : act = .run tok input)
      (h : Stage.Step cfg s.sh tok a input a.phase.stage a'.phase.stage eff)
      (hn : a.next cfg s.sh tok input = some (a'.phase, eff)) (hsh : s'.sh = s.sh.apply eff)
  | handed (hact : act = .dispatch) (h : Stage.Handed a.phase.stage a'.phase.stage)

/-- An attempt is made once, by the dispatcher. -/
structure Made (s s' : Sys) (act : Act) (tok : Token) (a' : Attempt) : Prop where
  last : tok = s.attempts.length
  act : act = .dispatch
  disp : ∃ now, s.disp = .register a'.entry now a'.probe
  phase : a'.phase = .registered
  shared : s'.sh = s.sh.apply (.register a'.id)

theorem follow_setPhase (hal : s.Aligned) {i : Token} {st : Stage} {ph : Phase}
    (hd : s.disp.hand = some (i, st)) (hh : Stage.Handed st ph.stage)
    (hs' : s'.attempts = s.setPhase i ph) (ha : s'.attempts[tok]? = some a') :
    ∃ a, s.attempts[tok]? = some a ∧ a'.Same a ∧ Moved cfg s s' .dispatch tok a a' := by
  obtain ⟨b, hb, rfl⟩ := hal.hand i st hd
  rw [hs', setPhase_eq hb] at ha
  by_cases heq : i = tok
  · subst heq
    rw [List.getElem?_set_self (List.getElem?_eq_some_iff.mp hb).1] at ha
    obtain rfl := Option.some.inj ha
    exact ⟨b, hb, .phase b ph, .handed rfl hh⟩
  · rw [List.getElem?_set_ne heq] at ha
    exact ⟨a', ha, .refl a', .still rfl⟩

theorem Step.back (hal : s.Aligned) (h : Step cfg s act s') (ha : s'.attempts[tok]? = some a') :
    (∃ a, s.attempts[tok]? = some a ∧ a'.Same a ∧ Moved cfg s s' act tok a a') ∨
      Made s s' act tok a' := by
  have hstill : s'.attempts = s.attempts →
      ∃ a, s.attempts[tok]? = some a ∧ a'.Same a ∧ Moved cfg s s' act tok a a' := by
    intro heq
    rw [heq] at ha
    exact ⟨a', ha, .refl a', .still rfl⟩
  cases h with
  | dispatch h =>
    cases h with
    | @register e now probe hd =>
      rcases Counting.getElem?_concat_cases ha with hold | ⟨rfl, rfl⟩
      · exact Or.inl ⟨a', hold, .refl a', .still rfl⟩
      · exact Or.inr ⟨rfl, rfl, ⟨now, hd⟩, rfl, rfl⟩
    | claim hd => exact Or.inl (follow_setPhase hal (by rw [hd]; rfl) .claim rfl ha)
    | setRinging hd => exact Or.inl (follow_setPhase hal (by rw [hd]; rfl) .ring rfl ha)
    | spawn hd => exact Or.inl (follow_setPhase hal (by rw [hd]; rfl) .spawn rfl ha)
    | _ => exact Or.inl (hstill rfl)
  | @run i input b phase eff hb hn hl =>
    by_cases heq : i = tok
    · subst heq
      dsimp only at ha
      rw [List.getElem?_set_self (List.getElem?_eq_some_iff.mp hb).1] at ha
      obtain rfl := Option.some.inj ha
      exact Or.inl ⟨b, hb, .phase b phase, .run rfl (Attempt.next_step hn) hn rfl⟩
    · dsimp only at ha
      rw [List.getElem?_set_ne heq] at ha
      exact Or.inl ⟨a', ha, .refl a', .still rfl⟩
  | _ => exact Or.inl (hstill rfl)

theorem Step.forth (hal : s.Aligned) (h : Step cfg s act s') (ha : s.attempts[tok]? = some a) :
    ∃ a', s'.attempts[tok]? = some a' ∧ a'.Same a ∧ Moved cfg s s' act tok a a' := by
  have hlt := (List.getElem?_eq_some_iff.mp ha).1
  have hlen : s.attempts.length ≤ s'.attempts.length := by
    cases h with
    | dispatch h =>
      cases h with
      | register => exact (List.length_append ▸ Nat.le_add_right _ _)
      | claim | setRinging | spawn => exact (List.length_modify ..).ge
      | _ => exact le_rfl
    | run => exact (List.length_set ..).ge
    | _ => exact le_rfl
  obtain ⟨a', ha'⟩ : ∃ a', s'.attempts[tok]? = some a' :=
    ⟨_, List.getElem?_eq_getElem (hlt.trans_le hlen)⟩
  rcases h.back hal ha' with ⟨b, hb, he, hmoved⟩ | hmade
  · obtain rfl := Option.some.inj (ha.symm.trans hb)
    exact ⟨a', ha', he, hmoved⟩
  · exact absurd hmade.last hlt.ne

end Sys

namespace Shared

variable {sh : Shared} {tok : Token} {eff : Effect} {id : CallId} {c : Chan}

/-- What an effect may do with a cancel channel. -/
inductive ChanStep (sh : Shared) (tok : Token) (c : Chan) : Effect → Chan → Prop where
  | still {eff : Effect} : ChanStep sh tok c eff c
  | sent {id : CallId} : ChanStep sh tok c (.send tok id) { c with signal := .sent }
  | closed {id : CallId} {eff : Effect} (hl : sh.cancels.lookup id = some tok)
      (he : eff = .register id ∨ ∃ t, eff = .dropGuard t id) (hq : c.signal = .quiet) :
      ChanStep sh tok c eff { c with signal := .dropped }
  | deafened : ChanStep sh tok c (.dropReceiver tok) { c with receiver := false }

theorem chan_modify {chans : List Chan} {t : Token} {f : Chan → Chan} (h : chans[tok]? = some c) :
    (chans.modify t f)[tok]? = some (if t = tok then f c else c) := by
  rw [List.getElem?_modify, h]
  rfl

theorem chan_unregister (h : sh.chans[tok]? = some c) (by_ : Remover)
    (he : eff = .register id ∨ ∃ t, eff = .dropGuard t id) :
    ∃ c', (sh.unregister id by_).chans[tok]? = some c' ∧ sh.ChanStep tok c eff c' := by
  unfold unregister
  cases hl : sh.cancels.lookup id with
  | none => exact ⟨c, h, .still⟩
  | some t =>
    refine ⟨_, chan_modify h, ?_⟩
    split_ifs with heq hq
    · subst heq
      exact .closed hl he hq
    · exact .still
    · exact .still

theorem chan_apply (h : sh.chans[tok]? = some c) (eff : Effect) :
    ∃ c', (sh.apply eff).chans[tok]? = some c' ∧ sh.ChanStep tok c eff c' := by
  cases eff with
  | register i =>
    obtain ⟨c', hc', hstep⟩ :=
      chan_unregister h (.registration sh.chans.length) (Or.inl (rfl : Effect.register i = _))
    exact ⟨c', Counting.getElem?_append_some hc' _, hstep⟩
  | dropGuard t i => exact chan_unregister h (.guard t) (Or.inr ⟨t, rfl⟩)
  | send t i =>
    simp only [apply]
    split_ifs
    · refine ⟨_, chan_modify h, ?_⟩
      split_ifs with heq
      · subst heq
        exact .sent
      · exact .still
    · exact ⟨c, h, .still⟩
  | dropReceiver t =>
    refine ⟨_, chan_modify h, ?_⟩
    split_ifs with heq
    · subst heq
      exact .deafened
    · exact .still
  | _ => exact ⟨c, h, .still⟩

theorem lookup_apply {k : CallId} (h : (sh.apply eff).cancels.lookup k = some tok) :
    sh.cancels.lookup k = some tok ∨ (eff = .register k ∧ tok = sh.chans.length) := by
  have herase : ∀ i, (sh.cancels.erase i).lookup k = some tok → sh.cancels.lookup k = some tok := by
    intro i h
    by_cases hk : k = i
    · subst hk
      rw [AList.lookup_erase] at h
      cases h
    · rwa [AList.lookup_erase_ne hk] at h
  have hunreg : ∀ i by_, (sh.unregister i by_).cancels.lookup k = some tok →
      sh.cancels.lookup k = some tok := by
    intro i by_ h
    unfold unregister at h
    split at h
    · exact herase i h
    · exact h
  cases eff with
  | register i =>
    by_cases hk : k = i
    · subst hk
      rw [apply, AList.lookup_insert] at h
      exact Or.inr ⟨rfl, (Option.some.inj h).symm⟩
    · rw [apply, AList.lookup_insert_ne hk] at h
      exact Or.inl h
  | dropGuard t i => exact Or.inl (hunreg i _ h)
  | takeSender t i => exact Or.inl (herase i h)
  | send t i =>
    simp only [apply] at h
    split_ifs at h <;> exact Or.inl h
  | _ => exact Or.inl h

end Shared

theorem Ender.next_send {d : Ender} {sh : Shared} {pc : EndPc} {eff : Effect}
    (h : d.next sh = some (pc, eff)) (t : Token) : pc ≠ .send t := by
  unfold next at h
  split at h
  all_goals cases h
  all_goals exact fun h => by cases h

namespace Sys

variable {cfg : ServerConfig} {act : Act} {s s' : Sys} {tok : Token} {a a' : Attempt} {id : CallId}

theorem Aligned.chan (hal : s.Aligned) (ha : s.attempts[tok]? = some a) :
    ∃ c, s.sh.chans[tok]? = some c := by
  have hlt := (List.getElem?_eq_some_iff.mp ha).1
  rw [← hal.chans] at hlt
  exact ⟨_, List.getElem?_eq_getElem hlt⟩

/-- A channel that has been signalled or deafened stays so. -/
theorem Step.chan (h : Step cfg s act s') {c : Chan} (hc : s.sh.chans[tok]? = some c) :
    ∃ c', s'.sh.chans[tok]? = some c' ∧ (c.signal = .sent → c'.signal = .sent) ∧
      (c.receiver = false → c'.receiver = false) := by
  rcases h.shared with ⟨eff, hsh⟩ | ⟨now, hsh⟩
  · obtain ⟨c', hc', hstep⟩ := Shared.chan_apply hc eff
    rw [hsh]
    refine ⟨c', hc', ?_⟩
    cases hstep with
    | still => exact ⟨fun h => h, fun h => h⟩
    | sent => exact ⟨fun _ => rfl, fun h => h⟩
    | closed hl he hq => exact ⟨fun h => absurd (hq.symm.trans h) (by decide), fun h => h⟩
    | deafened => exact ⟨fun h => h, fun _ => rfl⟩
  · rw [hsh]
    exact ⟨c, hc, fun h => h, fun h => h⟩

theorem Step.lookup (hal : s.Aligned) (h : Step cfg s act s')
    (hl : s'.sh.cancels.lookup id = some tok) :
    s.sh.cancels.lookup id = some tok ∨
      ∃ a', s'.attempts[tok]? = some a' ∧ a'.id = id ∧ Made s s' act tok a' := by
  have hold : ∀ eff : Effect, s'.sh = s.sh.apply eff → (∀ k, eff ≠ .register k) →
      s.sh.cancels.lookup id = some tok := by
    intro eff hsh hne
    rw [hsh] at hl
    exact (Shared.lookup_apply hl).resolve_right fun h => hne id h.1
  have hplain : ∀ {eff : Effect}, eff.plain = true → ∀ k, eff ≠ .register k := by
    rintro eff hp k rfl
    cases hp
  cases h with
  | tick => exact Or.inl hl
  | place => exact Or.inl (hold .mint rfl fun _ h => by cases h)
  | placing hp hn => exact Or.inl (hold _ rfl (hplain (Placing.plain hn)))
  | dispatch h =>
    cases h with
    | look => exact Or.inl hl
    | @register e now probe hd =>
      rcases Shared.lookup_apply hl with hl | ⟨heff, rfl⟩
      · exact Or.inl hl
      · rw [hal.chans]
        exact Or.inr ⟨_, List.getElem?_concat_length, Effect.register.inj heff,
          rfl, rfl, ⟨now, hd⟩, rfl, rfl⟩
    | pop | claim | mark | setRinging | spawn | wake => exact Or.inl hl
  | timer => exact Or.inl hl
  | run ha hn => exact Or.inl (hold _ rfl (hplain (Attempt.next_step hn).plain))
  | endCall i =>
    refine Or.inl (hold _ rfl fun k hk => ?_)
    rcases s.sh.endCall_cases i with ⟨e, rest, -, h⟩ | ⟨tok, -, -, h⟩ | ⟨-, -, h⟩ <;>
      rw [h] at hk <;> cases hk
  | ender hd hn => exact Or.inl (hold _ rfl (hplain (Ender.plain hn)))

theorem Step.sender (h : Step cfg s act s') {i : ℕ} {d : Ender} (hd : s'.enders[i]? = some d)
    (hpc : d.pc = .send tok) :
    s.enders[i]? = some d ∨ (act = .endCall d.id ∧ s.sh.cancels.lookup d.id = some tok) := by
  cases h with
  | endCall k hl =>
    rcases Counting.getElem?_concat_cases hd with hd | ⟨-, rfl⟩
    · exact Or.inl hd
    · rcases s.sh.endCall_cases k with ⟨e, rest, -, h⟩ | ⟨t, -, hlook, h⟩ | ⟨-, -, h⟩
      · rw [h] at hpc; cases hpc
      · rw [h] at hpc
        cases hpc
        exact Or.inr ⟨rfl, hlook⟩
      · rw [h] at hpc; cases hpc
  | @ender j x pc eff hx hn =>
    by_cases heq : j = i
    · subst heq
      dsimp only at hd
      rw [List.getElem?_set_self (List.getElem?_eq_some_iff.mp hx).1] at hd
      obtain rfl := Option.some.inj hd
      exact absurd hpc (Ender.next_send hn tok)
    · dsimp only at hd
      rw [List.getElem?_set_ne heq] at hd
      exact Or.inl hd
  | dispatch h => cases h <;> exact Or.inl hd
  | _ => exact Or.inl hd

end Sys

end Kutsu
