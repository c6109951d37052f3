import Overlay.Proofs.Crypto.Textbook
import Overlay.Proofs.Handshake.Engine

/-!
# The handshake converges

Two endpoints joined by two lines that lose nothing and keep the order (`Dialogue`).  Either end may send
payloads, do its jobs, and hand its protocol messages to its line, and the oldest message of a line may be
delivered, in any order and at any moments between two moments in which nothing runs out.

Every payload that is delivered is read as it was sent; and where nothing is left to do after somebody sent a
payload, both ends are protected by the same agreement, and each has told so once (`converges`).  The proof
lets the outline of the handshake run along (`Follows`), and takes from it that whatever arrives is understood.
-/

namespace Overlay

structure Letter where
  armed : ArmedMessage
  payload : Option Bytes
deriving DecidableEq

/-- Two endpoints joined by two lines that lose nothing and keep the order. -/
structure Dialogue where
  ends : Side → Endpoint
  /-- What is on its way from an end to the other one, the oldest first. -/
  line : Side → List Letter
  /-- The payloads that were delivered, each with the answer of the engine. -/
  answers : List (Bytes × Except ArmError Disarmed)

namespace Dialogue

inductive Action where
  | arm (a : Side) (payload : Bytes)
  | runDeferred (a : Side)
  | collect (a : Side)
  /-- The oldest message of the other end's line is delivered to an end. -/
  | deliver (a : Side)
deriving DecidableEq

def address (d : Dialogue) (a : Side) : PublicKey := (d.ends a).engine.address

def perform (S : Suite) (now : Nat) (d : Dialogue) (a : Side) (op : Operation) : Dialogue :=
  { d with ends := Function.update d.ends a (op.perform S now (d.ends a)) }

def act (S : Suite) (now : Nat) (d : Dialogue) : Action → Dialogue
  | .arm a payload =>
    let peer := d.address a.other
    let answer := ((d.ends a).engine.armOutbound S now peer payload (d.ends a).entropy).1
    { d.perform S now a (.armOutbound peer payload) with
      line := Function.update d.line a (d.line a ++ answer.toOption.toList.map (⟨·, some payload⟩)) }
  | .runDeferred a => d.perform S now a .runDeferred
  | .collect a =>
    { d.perform S now a .drainOutbox with
      line := Function.update d.line a (d.line a ++ (d.ends a).engine.outbox.map (⟨·.armed, none⟩)) }
  | .deliver a =>
    match d.line a.other with
    | [] => d
    | l :: rest =>
      let peer := d.address a.other
      let answer := ((d.ends a).engine.disarmInbound S now peer l.armed (d.ends a).entropy).1
      { d.perform S now a (.disarmInbound peer l.armed) with
        line := Function.update d.line a.other rest
        answers := d.answers ++ l.payload.toList.map (·, answer) }

def start (S : Suite) (secret : Side → SecretKey) (config : Side → ArmConfig)
    (entropy : Side → Entropy) : Dialogue :=
  ⟨fun a => .start (S.keyPair (secret a)) (config a) (entropy a), fun _ => [], []⟩

def run (S : Suite) (d : Dialogue) (acts : List (Nat × Action)) : Dialogue :=
  acts.foldl (fun d act => d.act S act.1 act.2) d

theorem run_concat (S : Suite) (d : Dialogue) (acts : List (Nat × Action)) (now : Nat)
    (act : Action) : d.run S (acts ++ [(now, act)]) = (d.run S acts).act S now act := by
  unfold run
  rw [List.foldl_append]
  rfl

/-- Nothing is left to do: no message is on its way, no message waits, and no job. -/
def Quiet (d : Dialogue) : Prop :=
  ∀ a, (d.ends a).engine.deferred = [] ∧ (d.ends a).engine.outbox = [] ∧ d.line a = []

/-! ### The outline runs along -/

variable {S : Suite} {P : Side → Party} {p : Handshake} {d : Dialogue} {now : Nat}

def Bears (S : Suite) (P : Party) (i : Parcel) (l : Letter) : Prop :=
  P.Carries S i l.armed ∧ l.payload = i.payload

/-- A dialogue goes as the outline says. -/
structure Follows (S : Suite) (P : Side → Party) (p : Handshake) (d : Dialogue) : Prop where
  ends : ∀ a, (P a).Runs S (p a) (d.ends a)
  line : ∀ a, List.Forall₂ (Bears S (P a)) (p a).line (d.line a)
  answers : ∀ x ∈ d.answers, x.2 = .ok (.application x.1)

/-- The two ends agree on the same, and everything they need can be made. -/
structure Matched (S : Suite) (P : Side → Party) : Prop where
  ready : ∀ a, (P a).Ready S
  faces : ∀ a, (P a).Faces (P a.other)

theorem Follows.address (hd : Follows S P p d) (hP : Matched S P) (a : Side) :
    d.address a.other = (P a).peer := by
  rw [Dialogue.address, Engine.address, (hd.ends a.other).identity]
  exact (hP.faces a).own

theorem Follows.put (hd : Follows S P p d) (a : Side) {h : Half} {w : Endpoint} {parcels : List Parcel}
    {letters : List Letter} (hw : (P a).Runs S h w) (hline : h.line = (p a).line ++ parcels)
    (hletters : List.Forall₂ (Bears S (P a)) parcels letters) :
    Follows S P (p.put a h) { d with
      ends := Function.update d.ends a w
      line := Function.update d.line a (d.line a ++ letters) } := by
  refine ⟨?_, ?_, hd.answers⟩
  · intro b
    rcases Side.eq_or_eq_other a b with rfl | rfl
    · rw [Handshake.put_self]
      simp only [Function.update_self]
      exact hw
    · rw [Handshake.put_other]
      simp only [Function.update_of_ne (Side.other_ne a)]
      exact hd.ends a.other
  · intro b
    rcases Side.eq_or_eq_other a b with rfl | rfl
    · rw [Handshake.put_self, hline]
      simp only [Function.update_self]
      exact List.rel_append (hd.line b) hletters
    · rw [Handshake.put_other]
      simp only [Function.update_of_ne (Side.other_ne a)]
      exact hd.line a.other

theorem bears_outbox {Q : Party} {parcels : List Parcel} {outbox : List Outgoing}
    (h : List.Forall₂ (Q.Carries S) parcels (outbox.map (·.armed))) (hi : ∀ i ∈ parcels, i.payload = none) :
    List.Forall₂ (Bears S Q) parcels (outbox.map (⟨·.armed, none⟩)) := by
  induction outbox generalizing parcels with
  | nil =>
    cases h
    exact .nil
  | cons m outbox ih =>
    cases h with
    | cons hm hrest =>
      exact .cons ⟨hm, (hi _ List.mem_cons_self).symm⟩
        (ih hrest fun i hmem => hi i (List.mem_cons_of_mem _ hmem))

theorem bears_answer {Q : Party} {s : Stage} {payload : Bytes} {answer : Except ArmError ArmedMessage}
    (h : ∀ m, answer = .ok m → Q.Carries S (s.wrap payload) m) :
    List.Forall₂ (Bears S Q) ((answer.toOption.map fun _ => payload).map s.wrap).toList
      (answer.toOption.toList.map (⟨·, some payload⟩)) := by
  cases answer with
  | error e => exact .nil
  | ok m =>
    refine .cons ⟨h m rfl, ?_⟩ .nil
    unfold Stage.wrap
    split <;> rfl

/-- The oldest message of a line is delivered and understood. -/
theorem Follows.deliver (hd : Follows S P p d) (hP : Matched S P) (hS : S.Opens)
    (hnow : ∀ a, (P a).Within now) (a : Side) {i : Parcel} {l : Letter} {parcels : List Parcel}
    {letters : List Letter} {s : Stage} {reply : List Parcel} (hi : (p a.other).line = i :: parcels)
    (hl : d.line a.other = l :: letters) (hs : (p a).stage.hear i = some (s, reply)) :
    Follows S P ((p.put a.other { p a.other with line := parcels }).put a ((p a).heed s reply))
      (d.act S now (.deliver a)) := by
  have hline := hd.line a.other
  rw [hi, hl] at hline
  obtain ⟨⟨hcarries, hpayload⟩, hrest⟩ := List.forall₂_cons.1 hline
  obtain ⟨hw, hanswer⟩ := (hd.ends a).disarmInbound (hP.ready a) (hnow a) (hP.faces a) hS hs hcarries
  have hpeer := hd.address hP a
  simp only [Dialogue.act, hl, perform, hpeer]
  refine ⟨?_, ?_, ?_⟩
  · intro b
    rcases Side.eq_or_eq_other a b with rfl | rfl
    · rw [Handshake.put_self]
      simp only [Function.update_self]
      exact hw
    · rw [Handshake.put_other, Handshake.put_self]
      simp only [Function.update_of_ne (Side.other_ne a)]
      exact (hd.ends a.other).same _ rfl rfl rfl
  · intro b
    rcases Side.eq_or_eq_other a.other b with rfl | hb
    · rw [Handshake.put_other, Handshake.put_self]
      simp only [Function.update_self]
      exact hrest
    · rw [Side.other_other] at hb
      subst hb
      rw [Handshake.put_self]
      simp only [Function.update_of_ne (Side.other_ne b).symm]
      exact hd.line b
  · intro x hx
    rcases List.mem_append.1 hx with hold | hnew
    · exact hd.answers x hold
    · obtain ⟨payload, hp, rfl⟩ := List.mem_map.1 hnew
      rw [hpayload, Option.mem_toList] at hp
      exact hanswer payload hp

/-- **The outline runs along** with every action. -/
theorem Follows.act (hd : Follows S P p d) (hP : Matched S P) (hS : S.Opens) (hp : Handshake.Orderly p)
    (hnow : ∀ a, (P a).Within now) (act : Action) :
    ∃ p', (p' = p ∨ Handshake.Next p p') ∧ Follows S P p' (d.act S now act) ∧
      ∀ a payload, act = .arm a payload → (p' a).armed := by
  cases act with
  | arm a payload =>
    have hpeer := hd.address hP a
    obtain ⟨sent, hsent⟩ : ∃ sent, sent = ((d.ends a).engine.armOutbound S now (P a).peer payload
      (d.ends a).entropy).1.toOption.map fun _ => payload := ⟨_, rfl⟩
    obtain ⟨hw, hm⟩ := (hd.ends a).armOutbound (hP.ready a) (hnow a) payload sent
    refine ⟨p.put a ((p a).arm sent), Or.inr (.arm a sent), ?_, ?_⟩
    · simp only [Dialogue.act, perform, hpeer]
      apply hd.put a hw rfl
      rw [hsent]
      exact bears_answer hm
    · intro b payload' hb
      cases hb
      rw [Handshake.put_self]
      rfl
  | runDeferred a =>
    have hw := (hd.ends a).runDeferred (hP.ready a) (hnow a)
    have hline : (p a).runDeferred.line = (p a).line :=
      Handshake.runDeferred_keeps (P := fun h => h.line = (p a).line) rfl fun _ _ hh => hh
    have hempty : List.Forall₂ (Bears S (P a)) [] [] := .nil
    have hput := hd.put a hw (hline.trans (List.append_nil _).symm) hempty
    rw [List.append_nil, Function.update_eq_self] at hput
    exact ⟨_, Or.inr (.runDeferred a), hput, nofun⟩
  | collect a =>
    have hw := (hd.ends a).drainOutbox now
    exact ⟨_, Or.inr (.collect a), hd.put a hw rfl (bears_outbox (hd.ends a).outbox (hp.payload_outbox a)),
      nofun⟩
  | deliver a =>
    have hline := hd.line a.other
    cases hl : d.line a.other with
    | nil =>
      simp only [Dialogue.act, hl]
      exact ⟨p, Or.inl rfl, hd, nofun⟩
    | cons l letters =>
      rw [hl] at hline
      cases hi : (p a.other).line with
      | nil =>
        rw [hi] at hline
        cases hline
      | cons i parcels =>
        obtain ⟨s, reply, hs⟩ := hp.understood a hi
        exact ⟨_, Or.inr (.deliver a i parcels s reply hi hs), hd.deliver hP hS hnow a hi hl hs, nofun⟩

/-! ### Runs -/

theorem follows_run (hP : Matched S P) (hS : S.Opens) (hd : Follows S P (fun _ => .start) d)
    (acts : List (Nat × Action)) (hnow : ∀ act ∈ acts, ∀ a, (P a).Within act.1) :
    ∃ p, Handshake.Orderly p ∧ Follows S P p (d.run S acts) ∧
      ∀ now a payload, (now, .arm a payload) ∈ acts → (p a).armed := by
  induction acts using List.reverseRecOn with
  | nil =>
    refine ⟨fun _ => .start, ⟨?_, fun a => ⟨0, .start⟩⟩, hd, nofun⟩
    intro a harmed
    cases harmed
  | append_singleton acts act ih =>
    obtain ⟨p, hp, hf, harmed⟩ := ih fun act hact => hnow act (List.mem_append_left _ hact)
    obtain ⟨now, act⟩ := act
    obtain ⟨p', hnext, hf', harm⟩ := hf.act hP hS hp (hnow (now, act) (by simp)) act
    rw [run_concat]
    refine ⟨p', ?_, hf', ?_⟩
    · rcases hnext with rfl | hnext
      · exact hp
      · exact hp.next hnext
    · intro now' a payload hmem
      rcases List.mem_append.1 hmem with hold | hnew
      · rcases hnext with rfl | hnext
        · exact harmed now' a payload hold
        · exact hnext.armed (harmed now' a payload hold)
      · cases List.mem_singleton.1 hnew
        exact harm a payload rfl

/-! ### Convergence -/

/-- The keys of both ends, long-time and first, make agreements that can be told apart. -/
structure Distinct (S : Suite) (secret : Side → SecretKey) (entropy : Side → Entropy) : Prop where
  identity : ∀ a, S.publicOf (secret a) ≠ S.publicOf (secret a.other)
  first : ∀ a, S.publicOf (entropy a).drawSecret.1 ≠ S.publicOf (entropy a.other).drawSecret.1
  offer : ∀ a, S.publicOf (entropy a).drawSecret.1 ≠ S.publicOf (secret a)
  name : ∀ a, S.agreementId (S.publicOf (entropy a).drawSecret.1) (S.publicOf (entropy a.other).drawSecret.1) ≠
    S.agreementId (S.publicOf (secret a)) (S.publicOf (secret a.other))

/-- Where nothing is left to do, nothing is left to do in the outline. -/
theorem Follows.quiet (hd : Follows S P p d) (hquiet : d.Quiet) (a : Side) :
    (p a).jobs = [] ∧ (p a).outbox = [] ∧ (p a).line = [] := by
  obtain ⟨hdeferred, houtbox, hline⟩ := hquiet a
  have hjobs := (hd.ends a).deferred
  have hposted := (hd.ends a).outbox
  have hsent := hd.line a
  rw [hdeferred] at hjobs
  rw [houtbox] at hposted
  rw [hline] at hsent
  exact ⟨List.map_eq_nil_iff.1 hjobs.symm, List.forall₂_nil_right_iff.1 hposted,
    List.forall₂_nil_right_iff.1 hsent⟩

/-- What the two ends will agree on. -/
theorem matched (hcommutes : S.Commutes) (hseals : S.Seals) (hcontributes : S.Contributes)
    {secret : Side → SecretKey} {config : Side → ArmConfig} {entropy : Side → Entropy}
    (hkeys : Distinct S secret entropy) {start finish : Nat}
    (hspans : ∀ a, (config a).Spans start finish) :
    ∃ P : Side → Party, Matched S P ∧ Follows S P (fun _ => .start) (.start S secret config entropy) ∧
      ∀ a, (P a).start = start ∧ (P a).finish = finish := by
  choose longTime hlongTime using fun a => bondWith_derives hcontributes (hkeys.identity a)
  choose bond hbond using fun a => bondWith_derives hcontributes (hkeys.first a)
  refine ⟨fun a => ⟨config a, S.keyPair (secret a), S.publicOf (secret a.other), longTime a,
    S.keyPair (entropy a).drawSecret.1, bond a, start, finish⟩, ⟨?_, ?_⟩,
    ⟨?_, fun _ => .nil, nofun⟩, fun _ => ⟨rfl, rfl⟩⟩
  · intro a
    obtain ⟨hrecipient, hid, -⟩ := bondWith_ok (hbond a)
    obtain ⟨-, hlongTimeId, -⟩ := bondWith_ok (hlongTime a)
    refine ⟨hspans a, hseals, hlongTime a, ?_, ?_, ?_⟩
    · rw [hrecipient]
      exact hbond a
    · rw [hrecipient]
      exact hkeys.offer a.other
    · intro hname
      apply hkeys.name a
      have hname' : (bond a).id = (longTime a).id := hname
      exact hid.trans (hname' ▸ hlongTimeId.symm)
  · intro a
    have hback := hlongTime a.other
    have hback' := hbond a.other
    rw [Side.other_other] at hback hback'
    refine ⟨rfl, ?_, bond_mirror hcommutes (hlongTime a) hback, bond_mirror hcommutes (hbond a) hback',
      (bondWith_ok (hbond a)).1.symm⟩
    show S.publicOf (secret a.other.other) = S.publicOf (secret a)
    rw [Side.other_other]
  · intro a
    exact .start S _ (entropy a) rfl

/-- The session of an end with the other one, if it has not expired. -/
def session (d : Dialogue) (a : Side) (now : Nat) : Option Session :=
  (d.ends a).engine.session (d.address a.other) now

/-- An end is protected by an agreement of a name, and has told so once. -/
structure Protected (d : Dialogue) (a : Side) (id : AgreementId) (now : Nat) : Prop where
  session : ∃ s g, d.session a now = some s ∧ s.state = .forwardSecrecy ∧ s.active = some g ∧ g.id = some id
  events : (d.ends a).engine.events = [.forwardSecrecyEncryption (d.address a.other)]

theorem Follows.protected (hd : Follows S P p d) (hP : Matched S P) {a : Side} (hnow : (P a).Within now)
    (hs : (p a).stage = .promoted) : d.Protected a (P a).bond.id now := by
  have hw := hd.ends a
  have hpeer := hd.address hP a
  refine ⟨?_, ?_⟩
  · cases hi : (d.ends a).engine.sessions.stored (P a).peer with
    | none =>
      have hfresh := hw.absent hi
      rw [hs] at hfresh
      cases hfresh
    | some i =>
      obtain ⟨hAt, htouched⟩ := hw.session i hi
      rw [hs] at hAt
      have hlate : (P a).Late i.value := hAt
      obtain ⟨g, -, -, hg, hbond, -⟩ := hlate.active
      refine ⟨i.value, g, ?_, hlate.state, hg, by rw [Agreement.id, hbond]; rfl⟩
      rw [Dialogue.session, hpeer, Engine.session, Cache.peek_stored hw.sound, hi, Option.bind_some,
        hw.overdue (hP.ready a) hnow htouched]
      rfl
  · rw [hw.events, hs, hpeer]
    rfl

/-- **The handshake converges.**  Every payload that was delivered was read as it was sent, and when nothing
is left to do after somebody sent a payload, both ends are protected by one agreement, and each has told so
once. -/
theorem converges (hcommutes : S.Commutes) (hopens : S.Opens) (hseals : S.Seals)
    (hcontributes : S.Contributes) (secret : Side → SecretKey) (config : Side → ArmConfig)
    (entropy : Side → Entropy) (hkeys : Distinct S secret entropy) (start finish : Nat)
    (hspans : ∀ a, (config a).Spans start finish) (acts : List (Nat × Action))
    (htimes : ∀ act ∈ acts, start ≤ act.1 ∧ act.1 ≤ finish) :
    (∀ x ∈ ((Dialogue.start S secret config entropy).run S acts).answers, x.2 = .ok (.application x.1)) ∧
      (((Dialogue.start S secret config entropy).run S acts).Quiet →
        (∃ now a payload, (now, .arm a payload) ∈ acts) →
        ∃ id, ∀ a now, start ≤ now → now ≤ finish →
          ((Dialogue.start S secret config entropy).run S acts).Protected a id now) := by
  obtain ⟨P, hP, hstart, htime⟩ := matched hcommutes hseals hcontributes hkeys hspans
  have hwithin : ∀ now, start ≤ now → now ≤ finish → ∀ a, (P a).Within now := by
    intro now hfrom hto a
    rw [Party.Within, (htime a).1, (htime a).2]
    exact ⟨hfrom, hto⟩
  obtain ⟨p, hp, hd, harmed⟩ := follows_run hP hopens hstart acts fun act hact =>
    hwithin act.1 (htimes act hact).1 (htimes act hact).2
  refine ⟨hd.answers, fun hquiet ⟨_, b, payload, hb⟩ => ⟨(P .left).bond.id, ?_⟩⟩
  intro a now hfrom hto
  have hstage := hp.promoted (hd.quiet hquiet) ⟨b, harmed _ b payload hb⟩ a
  have hprotected := hd.protected hP (hwithin now hfrom hto a) hstage
  have hid : (P a).bond.id = (P .left).bond.id := by
    cases a with
    | left => rfl
    | right => exact (hP.faces .left).bond.1
  rw [← hid]
  exact hprotected

def secrets (a : Side) : SecretKey := ⟨Textbook.remainder (if a = .left then 5 else 7)⟩

def sources (a : Side) : Entropy := Textbook.counting (if a = .left then 11 else 13)

/-- The left end says something, and all that follows is delivered. -/
def exchange : List (Nat × Action) := [(1, .arm .left [104, 105]), (2, .runDeferred .left),
  (3, .collect .left), (4, .deliver .right), (5, .deliver .right), (6, .runDeferred .right),
  (7, .collect .right), (8, .deliver .left), (9, .deliver .left), (10, .runDeferred .left),
  (11, .collect .left), (12, .deliver .right), (13, .runDeferred .right)]

theorem distinct_exchange : Distinct Textbook.suite secrets sources where
  identity a := by cases a <;> decide +kernel
  first a := by cases a <;> decide +kernel
  offer a := by cases a <;> decide +kernel
  name a := by cases a <;> decide +kernel

theorem quiet_exchange :
    ((Dialogue.start Textbook.suite secrets (fun _ => {}) sources).run Textbook.suite exchange).Quiet := by
  intro a
  cases a <;> decide +kernel

theorem spans_exchange : ArmConfig.Spans {} 1 13 where
  enabled := rfl
  fits := by
    unfold ArmConfig.Fits
    decide +kernel
  retry := by decide +kernel
  expiry := by decide +kernel
  idle bound h := by
    have hidle : ({} : ArmConfig).sessionExpireAfter.bound? = some 300000 := by decide +kernel
    rw [hidle] at h
    cases h
    decide
  clock := by decide +kernel

/-- After the exchange both ends are protected by one agreement. -/
theorem converges_exchange :
    (∀ x ∈ ((Dialogue.start Textbook.suite secrets (fun _ => {}) sources).run Textbook.suite exchange).answers,
      x.2 = .ok (.application x.1)) ∧
    ∃ id, ∀ a now, 1 ≤ now → now ≤ 13 →
      ((Dialogue.start Textbook.suite secrets (fun _ => {}) sources).run Textbook.suite exchange).Protected
        a id now := by
  obtain ⟨hanswers, hdone⟩ := converges Textbook.suite_commutes Textbook.suite_opens Textbook.suite_seals
    Textbook.suite_contributes secrets (fun _ => {}) sources distinct_exchange 1 13 (fun _ => spans_exchange)
    exchange (by decide)
  exact ⟨hanswers, hdone quiet_exchange ⟨1, .left, [104, 105], by decide⟩⟩

end Dialogue

end Overlay
