import Overlay.Proofs.Engine.Operation

/-!
# Notices tell the truth

What an engine tells the application about a peer should alternate between the two kinds of protection and
end with the protection of the session that is stored, none counting as the long-time agreement
(`TellsTruth`).  Every step of an engine keeps this, except that a session lapses without a word
(`Step.tellsTruth`).  After a lapse nothing makes the record true again before the operation ends
(`Steps.fades`).  So the notices about a peer are true all along a run exactly if no check for renewal finds
the session of that peer expired while it is protected by a short-lived agreement
(`tellsTruth_iff_no_lapse`).
-/

namespace Overlay

namespace Engine

def protectionOf (o : Option Session) : EncryptionState := (o.map (·.state)).getD .longTime

variable {S : Suite} {e : Engine} {about : PublicKey → Prop} {p : PublicKey} {o o' : Option Session}
  {events : List Event}

theorem Fate.tells (hf : Fate S e about p o events o') :
    notices p events = notices p (changed p (protectionOf o) (protectionOf o')) := by
  cases hf with
  | keep => simp [changed]
  | drop s => rw [dropped_eq]; rfl
  | start s hq hs =>
    have hstate : protectionOf (some s) = .longTime := state_freshSession hs
    rw [hstate]
    rfl

theorem Fate.protection (hf : Fate S e about p o events o') :
    protectionOf o' = protectionOf o ∨ protectionOf o' = .longTime := by
  cases hf with
  | keep => exact Or.inl rfl
  | drop s => exact Or.inr rfl
  | start s hq hs => exact Or.inr (state_freshSession hs)

end Engine

namespace Endpoint

open Engine

variable {S : Suite} {now : Nat} {sc : Scope} {w w' : Endpoint} {p : PublicKey}

/-- What the application was told about a peer so far, or will be told when it asks for the events. -/
def told (w : Endpoint) (p : PublicKey) : List EncryptionState :=
  notices p (w.handedOut ++ w.engine.events)

def protection (w : Endpoint) (p : PublicKey) : EncryptionState := protectionOf (w.engine.held p)

def TellsTruth (w : Endpoint) (p : PublicKey) : Prop := Truthful (w.told p) (w.protection p)

theorem told_append (w : Endpoint) (p : PublicKey) (events : List Event) :
    notices p (w.handedOut ++ (w.engine.events ++ events)) = w.told p ++ notices p events := by
  rw [← List.append_assoc, notices_append]
  rfl

theorem told_handOut (w : Endpoint) (p : PublicKey) :
    notices p ((w.handedOut ++ w.engine.events) ++ []) = w.told p := by
  rw [List.append_nil]
  rfl

theorem protection_of_held {s : Session} (hp : w.engine.held p = some s) : w.protection p = s.state := by
  rw [protection, hp]
  rfl

/-- A step that settles sessions tells the change that it makes. -/
theorem told_settle {c : Cache PublicKey Session} {events : List Event}
    (hf : Fate S w.engine sc.peers p (w.engine.held p) (events.filter fun v => v.peer = some p)
      ((c.stored p).map (·.value))) :
    (w.withEngine ((w.engine.withSessions c).announce events)).told p =
      w.told p ++ notices p (changed p (w.protection p) (protectionOf ((c.stored p).map (·.value)))) := by
  have ht : (w.withEngine ((w.engine.withSessions c).announce events)).told p =
      notices p (w.handedOut ++ (w.engine.events ++ events)) := rfl
  rw [ht, told_append, ← notices_filter, hf.tells]
  rfl

theorem told_turn (w : Endpoint) (q : PublicKey) (t : Turn) (p : PublicKey) :
    (w.after (w.engine.absorb q t, t.entropy)).told p = w.told p ++ notices p t.events :=
  told_append w p t.events

theorem protection_turn {s : Session} {t : Turn} {q : PublicKey} (hw : w.engine.sessions.Sound)
    (hq : w.engine.held q = some s) (p : PublicKey) :
    (w.after (w.engine.absorb q t, t.entropy)).protection p =
      if p = q then t.session.state else w.protection p := by
  have hp : (w.after (w.engine.absorb q t, t.entropy)).protection p =
      protectionOf ((w.engine.absorb q t).held p) := rfl
  rw [hp, held_absorb hw hq]
  split <;> rfl

/-! ### Steps -/

/-- A step keeps the notices about a peer true if the session of that peer does not lapse. -/
theorem Step.tellsTruth (hs : Step S now sc w w') (hw : w.engine.sessions.Sound)
    (hp : ¬ sc.lapses p) (ht : w.TellsTruth p) : w'.TellsTruth p := by
  cases hs with
  | settle c events hc hb hf =>
    rw [TellsTruth, told_settle (hf p), notices_changed]
    exact Truthful.change ht _
  | lapse c q i hc hb hi hs hl =>
    have hprotect : protectionOf ((c.stored p).map (·.value)) = w.protection p := by
      rw [hs p]
      by_cases hq : p = q
      · subst hq
        have hheld : w.engine.held p = some i.value := by rw [held, hi]; rfl
        rw [if_pos rfl, protection_of_held hheld]
        cases hstate : i.value.state with
        | longTime => rfl
        | forwardSecrecy => exact absurd (hl hstate) hp
      · rw [if_neg hq]
        rfl
    show Truthful (w.told p) (protectionOf ((c.stored p).map (·.value)))
    rw [hprotect]
    exact ht
  | turn q s t hpeer hq hm =>
    rw [TellsTruth, told_turn, protection_turn hw hq]
    by_cases hpq : p = q
    · subst hpq
      rw [if_pos rfl]
      rw [TellsTruth, protection_of_held hq] at ht
      apply hm.truthful
      show Truthful (w.told p ++ []) s.state
      rw [List.append_nil]
      exact ht
    · have hnone : notices p t.events = [] := hm.notices_other hpq
      rw [if_neg hpq, hnone, List.append_nil]
      exact ht
  | queue deferred outbox hd ho => exact ht
  | handOut =>
    show Truthful (notices p ((w.handedOut ++ w.engine.events) ++ [])) (w.protection p)
    rw [told_handOut]
    exact ht

/-- A step that heard nothing can only take a peer back to the long-time agreement. -/
theorem Step.fades (hs : Step S now sc w w') (hw : w.engine.sessions.Sound)
    (hsilence : sc.heard = .silence) (p : PublicKey) :
    Fades (w.told p) (w.protection p) (w'.told p) (w'.protection p) := by
  cases hs with
  | settle c events hc hb hf =>
    rw [told_settle (hf p)]
    show Fades _ _ _ (protectionOf ((c.stored p).map (·.value)))
    rcases (hf p).protection with heq | heq
    · have hsame : protectionOf ((c.stored p).map (·.value)) = w.protection p := heq
      rw [hsame, notices_changed, if_pos rfl, List.append_nil]
      exact .same _ _
    · rw [heq]
      exact fades_changed _ _ _
  | lapse c q i hc hb hi hs hl =>
    show Fades _ _ (w.told p) (protectionOf ((c.stored p).map (·.value)))
    rw [hs p]
    by_cases hq : p = q
    · rw [if_pos hq]
      exact .lost _ _
    · rw [if_neg hq]
      exact .same _ _
  | turn q s t hpeer hq hm =>
    rw [told_turn, protection_turn hw hq]
    by_cases hpq : p = q
    · subst hpq
      rw [hsilence] at hm
      have hfades : Fades (w.told p ++ []) s.state (w.told p ++ notices p t.events) t.session.state :=
        hm.fades
      rw [List.append_nil] at hfades
      rw [if_pos rfl, protection_of_held hq]
      exact hfades
    · have hnone : notices p t.events = [] := hm.notices_other hpq
      rw [if_neg hpq, hnone, List.append_nil]
      exact .same _ _
  | queue deferred outbox hd ho => exact .same _ _
  | handOut =>
    show Fades _ _ (notices p ((w.handedOut ++ w.engine.events) ++ [])) (w.protection p)
    rw [told_handOut]
    exact .same _ _

theorem Steps.tellsTruth (hs : Steps S now sc w w') (hw : w.engine.sessions.Sound)
    (hp : ¬ sc.lapses p) (ht : w.TellsTruth p) : w'.TellsTruth p :=
  hs.keeps hw (fun _ _ hv hstep => hstep.tellsTruth hv hp) ht

theorem Steps.fades (hs : Steps S now sc w w') (hw : w.engine.sessions.Sound)
    (hsilence : sc.heard = .silence) (p : PublicKey) :
    Fades (w.told p) (w.protection p) (w'.told p) (w'.protection p) :=
  hs.keeps (P := fun v => Fades (w.told p) (w.protection p) (v.told p) (v.protection p)) hw
    (fun _ _ hv hstep hf => hf.trans (hstep.fades hv hsilence p)) (.same _ _)

theorem Course.tellsTruth (hc : Course S now sc w w') (hw : w.engine.sessions.Sound)
    (hp : ¬ sc.lapses p) (ht : w.TellsTruth p) : w'.TellsTruth p := by
  obtain ⟨v, hs, hclose⟩ := hc
  have htold : w'.told p = v.told p := by rw [told, hclose.events, hclose.same.2.2]; rfl
  have hprotect : w'.protection p = v.protection p := by
    rw [protection, held, hclose.sessions]
    rfl
  rw [TellsTruth, htold, hprotect]
  exact hs.tellsTruth hw hp ht

/-! ### Lapses -/

/-- A check for renewal that lets a session lapse tells nothing. -/
theorem lapse_checkForRenew (hw : w.engine.sessions.Sound) (hl : w.Lapses now p) :
    w.protection p = .forwardSecrecy ∧
      (w.after (w.engine.checkForRenew S now p w.entropy).2).told p = w.told p ∧
      (w.after (w.engine.checkForRenew S now p w.entropy).2).protection p = .longTime := by
  obtain ⟨hfs, i, hi, ho, hs⟩ := hl
  have hheld : w.engine.held p = some i.value := by rw [held, hi]; rfl
  have hpeek : w.engine.sessions.peek p now = none := by
    rw [Cache.peek_stored hw, hi, Option.bind_some, if_pos ho]
  have hgone := held_get hw p p now
  have hfst := Cache.get_fst hw p now
  rw [if_pos rfl, hpeek] at hgone
  rw [hpeek] at hfst
  have hcheck : w.engine.checkForRenew S now p w.entropy =
      (.ok (), w.engine.withSessions (w.engine.sessions.get p now).2, w.entropy) := by
    simp only [Engine.checkForRenew, hfs, if_true, hfst]
  rw [hcheck]
  refine ⟨(protection_of_held hheld).trans hs, rfl, ?_⟩
  show protectionOf (((w.engine.sessions.get p now).2.stored p).map (·.value)) = .longTime
  rw [hgone]
  rfl

/-- A lapse among the jobs that were queued tells nothing, and the jobs behind it hear nothing that would
bring the session back. -/
theorem lapse_afterJobs (hw : w.engine.sessions.Sound) (l₁ l₂ : List (PublicKey × Deferred))
    (hl : (w.afterJobs S now l₁).Lapses now p) :
    w.protection p = .forwardSecrecy ∧
      (w.afterJobs S now (l₁ ++ (p, .checkRenewal) :: l₂)).told p = w.told p ∧
      (w.afterJobs S now (l₁ ++ (p, .checkRenewal) :: l₂)).protection p = .longTime := by
  have hfirst : Steps S now ⟨.silence, fun _ => True, fun _ => True⟩ w (w.afterJobs S now l₁) :=
    steps_afterJobs hw l₁ (fun _ _ => trivial) fun _ _ _ _ _ => trivial
  have hsound := hfirst.sound hw
  obtain ⟨hbefore, htold, hafter⟩ := lapse_checkForRenew (S := S) hsound hl
  have hfades := hfirst.fades hw rfl p
  rw [hbefore] at hfades
  obtain ⟨htold₁, hbefore₁⟩ := hfades.unchanged
  have hrest : (w.afterJobs S now (l₁ ++ (p, .checkRenewal) :: l₂)).engine.sessions.Sound ∧
      (w.afterJobs S now (l₁ ++ (p, .checkRenewal) :: l₂)).told p = w.told p ∧
      (w.afterJobs S now (l₁ ++ (p, .checkRenewal) :: l₂)).protection p = .longTime := by
    induction l₂ using List.reverseRecOn with
    | nil =>
      rw [afterJobs_concat]
      refine ⟨?_, htold.trans htold₁, hafter⟩
      have hstep : Steps S now ⟨.silence, fun _ => True, fun _ => True⟩ (w.afterJobs S now l₁) _ :=
        steps_job hsound (p, .checkRenewal) trivial fun _ _ => trivial
      exact hstep.sound hsound
    | append_singleton l job ih =>
      rw [← List.cons_append, ← List.append_assoc, afterJobs_concat]
      obtain ⟨hs, ht, hp⟩ := ih
      have hstep : Steps S now ⟨.silence, fun _ => True, fun _ => True⟩ _ _ :=
        steps_job hs job trivial fun _ _ => trivial
      have hfades := hstep.fades hs rfl p
      rw [hp] at hfades
      exact ⟨hstep.sound hs, hfades.of_longTime.1.trans ht, hfades.of_longTime.2⟩
  exact ⟨hbefore₁, hrest.2⟩

/-- An operation in which a session lapses leaves notices behind that are not true. -/
theorem not_tellsTruth_of_lapse {op : Operation} (hw : w.engine.sessions.Sound) (ht : w.TellsTruth p)
    (hl : op.Lapses S now w p) : ¬ (op.perform S now w).TellsTruth p := by
  -- What was told stays as it was before the lapse, and the state is the other one.
  have hwrong : ∀ v : Endpoint, w.protection p = .forwardSecrecy → v.told p = w.told p →
      v.protection p = .longTime → ¬ v.TellsTruth p := by
    intro v hbefore htold hafter hv
    rw [TellsTruth, htold, hafter] at hv
    have hstate := ht.unique hv
    rw [hbefore] at hstate
    cases hstate
  cases op with
  | checkForRenew peer =>
    obtain ⟨rfl, hl⟩ := hl
    obtain ⟨hbefore, htold, hafter⟩ := lapse_checkForRenew (S := S) hw hl
    exact hwrong _ hbefore htold hafter
  | runDeferred =>
    obtain ⟨l₁, l₂, hj, hl⟩ := hl
    rw [Operation.perform_runDeferred, hj]
    obtain ⟨hbefore, htold, hafter⟩ := lapse_afterJobs hw l₁ l₂ hl
    exact hwrong _ hbefore htold hafter
  | _ => exact hl.elim

/-! ### Runs -/

theorem tellsTruth_start (identity : KeyPair) (config : ArmConfig) (entropy : Entropy)
    (p : PublicKey) : (start identity config entropy).TellsTruth p := truthful_nil

/-- **Notices are true unless a session lapses.**  In a run of an engine, what the application was told
about a peer is true after every operation exactly if no operation lets the session of that peer lapse
without a word. -/
theorem tellsTruth_iff_no_lapse (S : Suite) (identity : KeyPair) (config : ArmConfig) (entropy : Entropy)
    (ops : List (Nat × Operation)) (p : PublicKey) :
    (∀ past rest, ops = past ++ rest →
        ((start identity config entropy).run S past).TellsTruth p) ↔
      ∀ past now op rest, ops = past ++ (now, op) :: rest →
        ¬ op.Lapses S now ((start identity config entropy).run S past) p := by
  have hsound := fun past => sound_run (S := S) (sound_start identity config entropy) past
  constructor
  · intro htrue past now op rest hops hl
    have hbefore := htrue past _ hops
    have hafter := htrue (past ++ [(now, op)]) rest (by simp [hops])
    rw [run_concat] at hafter
    exact not_tellsTruth_of_lapse (hsound past) hbefore hl hafter
  · intro hno past
    induction past using List.reverseRecOn with
    | nil => exact fun _ _ => tellsTruth_start identity config entropy p
    | append_singleton past op ih =>
      intro rest hops
      obtain ⟨now, op⟩ := op
      have hops' : ops = past ++ (now, op) :: rest := by simp [hops]
      rw [run_concat]
      -- All other peers may lapse; this one does not.
      have hcourse : Course S now (op.scope S now _ fun q => q ≠ p) _ _ :=
        op.course_perform (hsound past) fun q hl hq => hno past now op rest hops' (hq ▸ hl)
      exact hcourse.tellsTruth (hsound past) (fun hp => hp rfl) (ih _ hops')

-- A check that comes when the session has been idle for too long lets it lapse.
example : (Operation.checkForRenew partner).Lapses Textbook.suite 300002
    (newcomer.run Textbook.suite acquaintance) partner := by
  have hlapse : ((newcomer.run Textbook.suite acquaintance).engine.sessions.stored partner).any fun i =>
      (newcomer.run Textbook.suite acquaintance).engine.sessions.overdue i 300002 &&
        decide (i.value.state = .forwardSecrecy) := by decide +kernel
  obtain ⟨i, hi, hl⟩ := (Option.any_eq_true _ _).1 hlapse
  rw [Bool.and_eq_true, decide_eq_true_eq] at hl
  exact ⟨rfl, by decide +kernel, i, hi, hl.1, hl.2⟩

end Endpoint

end Overlay
