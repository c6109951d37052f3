import Overlay.Proofs.Engine.Operation
import Overlay.Proofs.Session.Known

/-!
# What an engine knows of its peer

An endpoint that talks with one peer only is known when its session with that peer is, and its messages are
offers of its own keys or were known before (`Endpoint.Known`).  Steps keep this as long as what they hear is
true (`Steps.known`), and so does every operation (`Known.perform`).  A payload is only ever sent under the
long-time agreement or under one that was promoted (`armOutbound_ok`).
-/

namespace Overlay

namespace Endpoint

open Engine

variable {S : Suite} {now : Nat} {sc : Scope} {w w' : Endpoint} {peer : PublicKey} {l : Lore}
  {spoken : ArmedMessage → Prop}

/-- An endpoint that talks with one peer, whose session is known, and whose messages are known or
offers. -/
structure Known (S : Suite) (peer : PublicKey) (l : Lore) (spoken : ArmedMessage → Prop) (w : Endpoint) :
    Prop where
  sound : w.engine.sessions.Sound
  only : ∀ p s, w.engine.held p = some s → p = peer
  jobs : ∀ job ∈ w.engine.deferred, job.1 = peer
  drawn : l.first ≤ w.entropy.secretsDrawn
  session : ∀ s, w.engine.held peer = some s → s.Known S w.engine.identity peer l w.entropy
  outbox : ∀ m ∈ w.engine.outbox,
    spoken m.armed ∨ l.Offers S w.engine.identity peer w.entropy m.armed

theorem Known.start (S : Suite) (identity : KeyPair) (config : ArmConfig) (entropy : Entropy)
    (hl : l.first ≤ entropy.secretsDrawn) : (start identity config entropy).Known S peer l spoken where
  sound := sound_start identity config entropy
  only _ _ h := by cases h
  jobs _ h := by cases h
  drawn := hl
  session _ h := by cases h
  outbox _ h := by cases h

theorem Known.weaken {l' : Lore} {spoken' : ArmedMessage → Prop} (h : w.Known S peer l spoken)
    (hfirst : l'.first = l.first) (htheirs : ∀ k, l.theirs k → l'.theirs k)
    (hnames : ∀ id, l.names id → l'.names id) (hspoken : ∀ m, spoken m → spoken' m) :
    w.Known S peer l' spoken' where
  sound := h.sound
  only := h.only
  jobs := h.jobs
  drawn := hfirst ▸ h.drawn
  session s hs := (h.session s hs).weaken hfirst htheirs hnames
  outbox m hm := (h.outbox m hm).imp (hspoken _) fun ⟨key, p, hp, hrest⟩ => ⟨key, p, hfirst ▸ hp, hrest⟩

theorem Step.entropy (hs : Step S now sc w w') :
    w'.entropy.secretAt = w.entropy.secretAt ∧ w.entropy.secretsDrawn ≤ w'.entropy.secretsDrawn := by
  cases hs with
  | turn p s t hpeer hp hm => exact hm.entropy
  | _ => exact ⟨rfl, Nat.le_refl _⟩

theorem Course.entropy (hc : Course S now sc w w') :
    w'.entropy.secretAt = w.entropy.secretAt ∧ w.entropy.secretsDrawn ≤ w'.entropy.secretsDrawn := by
  obtain ⟨v, hs, hclose⟩ := hc
  rw [hclose.same.2.1]
  clear hclose
  induction hs with
  | refl => exact ⟨rfl, Nat.le_refl _⟩
  | tail _ hs ih => exact ⟨hs.entropy.1.trans ih.1, Nat.le_trans ih.2 hs.entropy.2⟩

theorem entropy_run (hw : w.engine.sessions.Sound) (ops : List (Nat × Operation)) :
    (w.run S ops).entropy.secretAt = w.entropy.secretAt ∧
      w.entropy.secretsDrawn ≤ (w.run S ops).entropy.secretsDrawn := by
  induction ops using List.reverseRecOn with
  | nil => exact ⟨rfl, Nat.le_refl _⟩
  | append_singleton ops o ih =>
    have hcourse := o.2.course S o.1 (sound_run (S := S) hw ops)
    rw [run_concat]
    exact ⟨hcourse.entropy.1.trans ih.1, Nat.le_trans ih.2 hcourse.entropy.2⟩

/-- What is known stays known if every session was held before or is a fresh one with the peer. -/
theorem Known.resettle (hw : w.Known S peer l spoken) {c : Cache PublicKey Session} (hc : c.Sound)
    (events : List Event)
    (h : ∀ p s, (c.stored p).map (·.value) = some s →
      w.engine.held p = some s ∨ p = peer ∧ w.engine.freshSession S p = .ok s) :
    (w.withEngine { w.engine with sessions := c, events := events }).Known S peer l spoken := by
  refine ⟨hc, ?_, hw.jobs, hw.drawn, ?_, hw.outbox⟩
  · intro p s hp
    rcases h p s hp with hheld | ⟨hpeer, -⟩
    · exact hw.only p s hheld
    · exact hpeer
  · intro s hp
    rcases h peer s hp with hheld | ⟨-, hfresh⟩
    · exact hw.session s hheld
    · obtain ⟨b, hb, rfl⟩ := freshSession_ok hfresh
      exact .fresh (bondWith_ok hb).2.1 _ _ _ _ _ _ _

theorem Known.absorb (hw : w.Known S peer l spoken) {s : Session} {t : Turn}
    (hp : w.engine.held peer = some s) (ht : t.Known S w.engine.identity peer l)
    (hentropy : t.entropy.secretAt = w.entropy.secretAt ∧ w.entropy.secretsDrawn ≤ t.entropy.secretsDrawn) :
    (w.after (w.engine.absorb peer t, t.entropy)).Known S peer l spoken := by
  have hheld := fun p => held_absorb (t := t) hw.sound hp p
  refine ⟨hw.sound.modify peer fun _ => t.session, ?_, ?_, ht.drawn,
    ?_, ?_⟩
  · intro p s' hp'
    have hs' : (w.engine.absorb peer t).held p = some s' := hp'
    rw [hheld] at hs'
    split at hs'
    · assumption
    · exact hw.only p s' hs'
  · intro job hjob
    have hjob' : job ∈ w.engine.deferred ++ t.deferred.map (peer, ·) := hjob
    rw [List.mem_append, List.mem_map] at hjob'
    rcases hjob' with hold | ⟨work, -, rfl⟩
    · exact hw.jobs job hold
    · rfl
  · intro s' hp'
    have hs' : (w.engine.absorb peer t).held peer = some s' := hp'
    rw [hheld, if_pos rfl] at hs'
    cases hs'
    exact ht.session
  · intro m hout
    have hout' : m ∈ w.engine.outbox ++ t.outbox.map (⟨peer, ·⟩) := hout
    rw [List.mem_append, List.mem_map] at hout'
    rcases hout' with hold | ⟨m', hm', rfl⟩
    · exact (hw.outbox m hold).imp_right fun hoffer => hoffer.mono hentropy.1 hentropy.2
    · exact Or.inr (ht.outbox m' hm')

/-- A step that hears the truth keeps what is known. -/
theorem Step.known (hs : Step S now sc w w') (hpeers : ∀ p, sc.peers p → p = peer)
    (hh : sc.heard.Sincere S w.engine.identity peer l) (hw : w.Known S peer l spoken) :
    w'.Known S peer l spoken := by
  cases hs with
  | settle c events hc hb hf =>
    apply hw.resettle hc (w.engine.events ++ events)
    intro p s hp
    have hfate := hf p
    rw [hp] at hfate
    exact hfate.origin.imp_right fun ⟨hq, hfresh⟩ => ⟨hpeers p hq, hfresh⟩
  | lapse c q i hc hb hi hs hl =>
    apply hw.resettle hc w.engine.events
    intro p s hp
    rw [hs p] at hp
    split at hp
    · cases hp
    · exact Or.inl hp
  | turn q s t hpeer hq hm =>
    have hqp := hpeers q hpeer
    subst hqp
    have ht : t.Known S w.engine.identity q l := by
      refine hm.known hh ⟨hw.drawn, hw.session s hq, ?_⟩
      intro m hm
      cases hm
    exact hw.absorb hq ht hm.entropy
  | queue deferred outbox hd ho =>
    exact ⟨hw.sound, hw.only, fun job hjob => (hd job hjob).elim (hw.jobs job) (hpeers job.1), hw.drawn,
      hw.session, fun m hm => hw.outbox m (ho m hm)⟩
  | handOut => exact ⟨hw.sound, hw.only, hw.jobs, hw.drawn, hw.session, hw.outbox⟩

theorem Steps.known (hs : Steps S now sc w w') (hpeers : ∀ p, sc.peers p → p = peer)
    (hh : sc.heard.Sincere S w.engine.identity peer l) (hw : w.Known S peer l spoken) :
    w'.Known S peer l spoken := by
  have hboth : w'.engine.identity = w.engine.identity ∧ w'.Known S peer l spoken := by
    refine hs.keeps (P := fun v => v.engine.identity = w.engine.identity ∧ v.Known S peer l spoken)
      hw.sound ?_ ⟨rfl, hw⟩
    rintro v v' - hstep ⟨hid, hv⟩
    refine ⟨hstep.identity.trans hid, hstep.known hpeers ?_ hv⟩
    rw [hid]
    exact hh
  exact hboth.2

theorem sincere_silence (S : Suite) (own : KeyPair) (peer : PublicKey) (l : Lore) :
    Hearing.silence.Sincere S own peer l := ⟨fun _ _ h => h.elim, fun _ _ _ h => h.elim⟩

/-- An operation that hears the truth, and acknowledges only what may be said, keeps an endpoint known. -/
theorem Known.perform (hw : w.Known S peer l spoken) (op : Operation)
    (hpeers : ∀ p, op.peers w p → p = peer)
    (hh : (op.hearing S now w).Sincere S w.engine.identity peer l)
    (hack : ∀ s id m, (op.perform S now w).engine.held peer = some s → s.inactiveId = some id →
      S.agreementId w.engine.identity.publicKey peer = .ok s.longTimeId →
      Sealed (w.engine.context S now peer) s.longTimeId s.longTimePair (.acknowledgement id) m →
      spoken m) :
    (op.perform S now w).Known S peer l spoken := by
  obtain ⟨v, hs, hclose⟩ := op.course S now hw.sound
  have hv := hs.known hpeers hh hw
  have hsessions := hclose.sessions
  generalize op.perform S now w = w' at hclose hack hsessions ⊢
  cases hclose with
  | quiet => exact hv
  | ack p s id m hpeer hp hi hm =>
    have hpp := hpeers p hpeer
    subst hpp
    refine ⟨hv.sound, hv.only, hv.jobs, hv.drawn, hv.session, ?_⟩
    intro m' hm'
    have hout : m' ∈ v.engine.outbox ++ [⟨p, m⟩] := hm'
    rw [List.mem_append, List.mem_singleton] at hout
    rcases hout with hold | rfl
    · exact hv.outbox m' hold
    · have hcontext : v.engine.context S now p = w.engine.context S now p := hs.context p
      have hlongTime := (hv.session s hp).longTime
      rw [hs.identity] at hlongTime
      exact Or.inl (hack s id m hp hi hlongTime (hcontext ▸ hm))

theorem armOutbound_ok (hw : w.engine.sessions.Sound) {payload : Bytes} {m : ArmedMessage}
    (hm : (w.engine.armOutbound S now peer payload w.entropy).1 = .ok m) :
    ∃ s id pair, ((Operation.armOutbound peer payload).perform S now w).engine.held peer = some s ∧
      Sealed (w.engine.context S now peer) id pair (.application payload) m ∧
      (id = s.longTimeId ∨
        ∃ g b, s.active = some g ∧ g.bond = some b ∧ id = b.id ∧ pair = b.pair) := by
  have hpeer : (⟨.silence, (· = peer), fun _ => True⟩ : Scope).peers peer := rfl
  have hspec := converse_spec S now (fun x t => t.armOutbound x payload) hw hpeer
  show ∃ s id pair, (w.engine.armOutbound S now peer payload w.entropy).2.1.held peer = some s ∧ _
  unfold armOutbound at hm ⊢
  rcases hspec with ⟨e, err, hs, hr⟩ | ⟨e, s, t, result, hs, hp, ht, hr⟩
  · rw [hr] at hm
    cases hm
  · rw [hr] at hm ⊢
    have hresult : result = .ok m := hm
    subst hresult
    obtain ⟨id, pair, hsession, hsealed, hname⟩ := Turn.armOutbound_ok ht
    refine ⟨t.session, id, pair, ?_, hsealed, ?_⟩
    · rw [held_absorb (hs.sound hw) hp, if_pos rfl]
    · rw [hsession]
      exact hname

end Endpoint

end Overlay
