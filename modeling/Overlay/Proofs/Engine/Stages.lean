import Overlay.Proofs.Engine.Live

/-!
# Operations in stages

Some operations of an engine do the work of others.  What a message brings is opened first and then handled, and a key
that it brings is attached first, then our own key is sent, then the acknowledgement.  The engine looks the session up
once and does all of that in one turn.  It could as well look the session up again for each stage: a session that was
just found is found again, and nothing changes (`resolve_settled`), and the turns of the stages leave behind, one after
the other, what the one turn leaves behind (`converse_andThen`).

So `receivedKeyExchange` and `disarmInbound` are the operations that they are made of, done one after the other at the
same moment (`receivedKeyExchange_stages`, `disarmInbound_stages`).
-/

namespace Overlay

namespace Turn

variable {α β : Type} {x : Context} {key : PublicKey}

/-- A turn with what an earlier one left behind in front of what it leaves behind. -/
def following (t past : Turn) : Turn :=
  { t with
    deferred := past.deferred ++ t.deferred
    outbox := past.outbox ++ t.outbox
    events := past.events ++ t.events }

/-- Work adds to what is left behind already, and does not depend on it. -/
def Adds (step : Turn → α × Turn) : Prop :=
  ∀ t past, step (t.following past) = ((step t).1, (step t).2.following past)

/-- Work that goes on with the result of other work, unless that failed. -/
def andThen (first : Context → Turn → Except ArmError α × Turn) (second : α → Context → Turn → Except ArmError β × Turn)
    (x : Context) (t : Turn) : Except ArmError β × Turn :=
  match first x t with
  | (.error e, t) => (.error e, t)
  | (.ok a, t) => second a x t

theorem session_following (t past : Turn) : (t.following past).session = t.session := rfl

theorem following_fresh (t : Turn) : ({ session := t.session, entropy := t.entropy } : Turn).following t = t := by
  simp only [following, List.append_nil]

theorem Adds.andThen {first : Context → Turn → Except ArmError α × Turn}
    {second : α → Context → Turn → Except ArmError β × Turn} (h : Adds (first x)) (h' : ∀ a, Adds (second a x)) :
    Adds (Turn.andThen first second x) := by
  intro t past
  rw [Turn.andThen, Turn.andThen, h t past]
  cases first x t with
  | mk result t' =>
    cases result with
    | error e => rfl
    | ok a => exact h' a t' past

/-! ### What the stages add -/

theorem post_following (t past : Turn) (m : ArmedMessage) : (t.following past).post m = (t.post m).following past := by
  simp only [post, following, List.append_assoc]

theorem adds_ensureInactive (x : Context) : Adds (ensureInactive x) := by
  intro t past
  unfold ensureInactive following
  cases t.session.inactive <;> rfl

theorem adds_sealLongTime (x : Context) (content : ArmMessage) : Adds (sealLongTime x content) := fun _ _ => rfl

theorem adds_sendKeyExchange (x : Context) (key : PublicKey) : Adds (sendKeyExchange x key) := by
  intro t past
  rw [sendKeyExchange, sendKeyExchange, adds_sealLongTime x (.keyExchange key) t past]
  cases t.sealLongTime x (.keyExchange key) with
  | mk result t' =>
    cases result with
    | error e => rfl
    | ok m =>
      simp only [post_following]
      rfl

theorem adds_doKeyExchange (x : Context) : Adds (doKeyExchange x) := by
  intro t past
  rw [doKeyExchange, doKeyExchange, adds_ensureInactive x t past]
  cases t.ensureInactive x with
  | mk key t' =>
    simp only
    rw [session_following]
    split
    · exact adds_sendKeyExchange x key t' past
    · rfl

theorem adds_sendAck (x : Context) : Adds (sendAck x) := by
  intro t past
  rw [sendAck, sendAck, session_following]
  cases t.session.inactiveId with
  | none => rfl
  | some id =>
    simp only
    rw [adds_sealLongTime x (.acknowledgement id) t past]
    cases t.sealLongTime x (.acknowledgement id) with
    | mk result t' =>
      cases result with
      | error e => rfl
      | ok m =>
        simp only [post_following]

theorem adds_bondInactive (x : Context) (key : PublicKey) : Adds (bondInactive x key) := by
  intro t past
  rw [bondInactive, bondInactive, session_following]
  cases t.session.inactive <;> rfl

theorem adds_promote (x : Context) (id : AgreementId) : Adds (promote x id) := by
  intro t past
  rw [promote, promote, session_following]
  cases t.session.inactive with
  | none => rfl
  | some a =>
    simp only
    split
    · split
      · simp only [announce, withSession, following, List.append_assoc]
      · rfl
    · rfl

/-! ### Stages of a turn -/

def attach (key : PublicKey) (x : Context) (t : Turn) : Except ArmError Unit × Turn :=
  (t.ensureInactive x).2.bondInactive x key

def exchange (x : Context) (t : Turn) : Except ArmError Unit × Turn :=
  if x.config.forwardSecrecy then t.doKeyExchange x else (.ok (), t)

theorem adds_attach (key : PublicKey) (x : Context) : Adds (attach key x) := by
  intro t past
  rw [attach, adds_ensureInactive x t past]
  exact adds_bondInactive x key (t.ensureInactive x).2 past

theorem adds_exchange (x : Context) : Adds (exchange x) := by
  intro t past
  unfold exchange
  split
  · exact adds_doKeyExchange x t past
  · rfl

theorem receivedKeyExchange_stages (hkey : key ≠ x.peer) (t : Turn) :
    t.receivedKeyExchange x key = andThen (attach key) (fun _ => andThen exchange fun _ => sendAck) x t := by
  rw [receivedKeyExchange, if_neg hkey, andThen, attach]
  simp only
  cases (t.ensureInactive x).2.bondInactive x key with
  | mk result t' =>
    cases result with
    | error e => rfl
    | ok u =>
      simp only [andThen, exchange]
      split
      · cases t'.doKeyExchange x with
        | mk result t'' => cases result <;> rfl
      · rfl

/-- Opens a message, and leaves a check for renewal for later where short-lived agreements are in use. -/
def openChecked (m : ArmedMessage) (x : Context) (t : Turn) : Except ArmError (ArmMessage × Bool) × Turn :=
  (if x.config.forwardSecrecy then t.defer .checkRenewal else t).openInbound x m

theorem disarmInbound_stages (m : ArmedMessage) (t : Turn) : t.disarmInbound x m =
    andThen (openChecked m) (fun opened x t => t.handle x opened.1 opened.2) x t := by
  rw [disarmInbound, andThen, openChecked]
  cases (if x.config.forwardSecrecy then t.defer .checkRenewal else t).openInbound x m with
  | mk result t' => cases result <;> rfl

theorem adds_receivedKeyExchange (x : Context) (key : PublicKey) : Adds (receivedKeyExchange x key) := by
  by_cases hkey : key = x.peer
  · intro t past
    rw [receivedKeyExchange, receivedKeyExchange, if_pos hkey, if_pos hkey]
  · rw [show receivedKeyExchange x key = _ from funext (receivedKeyExchange_stages hkey)]
    exact (adds_attach key x).andThen fun _ => (adds_exchange x).andThen fun _ => adds_sendAck x

theorem adds_handle (x : Context) (content : ArmMessage) (longTime : Bool) :
    Adds fun t => t.handle x content longTime := by
  intro t past
  cases content with
  | application payload => rfl
  | keyExchange key =>
    simp only [handle]
    split
    · rw [adds_receivedKeyExchange x key t past]
    · rfl
  | acknowledgement id =>
    simp only [handle]
    split
    · rw [adds_promote x id t past]
    · rfl

end Turn

namespace Endpoint

open Engine

variable {α β : Type} {S : Suite} {now : Nat} {p : PublicKey} {w : Endpoint}

theorem absorb_absorb (e : Engine) (p : PublicKey) (t t' : Turn) :
    (e.absorb p t).absorb p t' = e.absorb p (t'.following t) := by
  simp only [absorb, Turn.following, Cache.modify_modify, List.map_append, List.append_assoc]
  rfl

/-- **Looking the session up between two stages changes nothing.** -/
theorem converse_andThen (S : Suite) (now : Nat) (p : PublicKey) (hw : w.engine.sessions.Sound)
    (first : Context → Turn → Except ArmError α × Turn)
    {second : α → Context → Turn → Except ArmError β × Turn} (hadds : ∀ a x, Turn.Adds (second a x)) :
    w.engine.converse S now p (Turn.andThen first second) w.entropy =
      match w.engine.converse S now p first w.entropy with
      | (.error err, e, r) => (.error err, e, r)
      | (.ok a, e, r) => e.converse S now p (second a) r := by
  cases hr : (w.engine.resolve S now p).1 with
  | error err => rw [converse_error hr, converse_error hr]
  | ok s =>
    have hsettled := settled_resolve hw hr
    have hcontext := context_resolve S now p w.engine
    rw [converse_ok hr, converse_ok hr, Turn.andThen]
    cases first (w.engine.context S now p) { session := s, entropy := w.entropy } with
    | mk result t =>
      cases result with
      | error err => rfl
      | ok a =>
        have hagain : (((w.engine.resolve S now p).2.absorb p t).resolve S now p) =
            (.ok t.session, (w.engine.resolve S now p).2.absorb p t) :=
          resolve_settled S (hsettled.modify fun _ => t.session)
        have hsame : ((w.engine.resolve S now p).2.absorb p t).context S now p = w.engine.context S now p := hcontext
        have hsecond := hadds a (w.engine.context S now p) { session := t.session, entropy := t.entropy } t
        rw [Turn.following_fresh] at hsecond
        simp only
        rw [converse, hagain]
        simp only [hsame, hsecond, absorb_absorb]
        rfl

theorem settled_converse {work : Context → Turn → Except ArmError α × Turn} {a : α} {e : Engine} {r : Entropy}
    (hw : w.engine.sessions.Sound) (h : w.engine.converse S now p work w.entropy = (.ok a, e, r)) :
    ∃ s, e.sessions.Settled p now s := by
  cases hr : (w.engine.resolve S now p).1 with
  | error err =>
    rw [converse_error hr] at h
    cases h
  | ok s =>
    rw [converse_ok hr] at h
    obtain ⟨rfl, -⟩ := Prod.mk.inj (Prod.mk.inj h).2
    exact ⟨_, (settled_resolve hw hr).modify fun _ => _⟩

theorem converse_congr {e : Engine} {u v : Context → Turn → Except ArmError α × Turn}
    (h : ∀ t, u (e.context S now p) t = v (e.context S now p) t) (r : Entropy) :
    e.converse S now p u r = e.converse S now p v r := by
  cases hr : (e.resolve S now p).1 with
  | error err => rw [converse_error hr, converse_error hr]
  | ok s => rw [converse_ok hr, converse_ok hr, h]

/-- Looking up a session that has settled, and doing nothing with it, changes nothing. -/
theorem converse_idle {e : Engine} {s : Session} (h : e.sessions.Settled p now s) (result : Except ArmError α)
    (r : Entropy) : e.converse S now p (fun _ t => (result, t)) r = (result, e, r) := by
  rw [converse, resolve_settled S h]
  simp only [absorb, h.modify_self, List.map_nil, List.append_nil]

theorem converse_map (S : Suite) (now : Nat) (p : PublicKey) (f : α → β)
    (work : Context → Turn → Except ArmError α × Turn) (e : Engine) (r : Entropy) :
    e.converse S now p (fun x t => ((work x t).1.map f, (work x t).2)) r =
      ((e.converse S now p work r).1.map f, (e.converse S now p work r).2) := by
  cases hr : (e.resolve S now p).1 with
  | error err =>
    rw [converse_error hr, converse_error hr]
    rfl
  | ok s => rw [converse_ok hr, converse_ok hr]

/-- Where the session has settled, a key that is refused outright may as well be refused in a turn. -/
theorem receivedKeyExchange_converse {e : Engine} {s : Session} (h : e.sessions.Settled p now s) (key : PublicKey)
    (r : Entropy) :
    e.receivedKeyExchange S now p key r = e.converse S now p (fun x t => t.receivedKeyExchange x key) r := by
  unfold Engine.receivedKeyExchange
  split
  · rename_i hkey
    rw [converse_congr (v := fun _ t => (.error (.invalidArgument .longTimeKeyExchanged), t)) fun t => if_pos hkey]
    exact (converse_idle h _ r).symm
  · rfl

/-- **A key is answered in three stages**, each of which may look the session up: the key is attached to the inactive
agreement, our own key is sent, and the agreement is acknowledged. -/
theorem receivedKeyExchange_stages (S : Suite) (now : Nat) (hw : w.engine.sessions.Sound) (p key : PublicKey) :
    w.engine.receivedKeyExchange S now p key w.entropy =
      if key = p then (.error (.invalidArgument .longTimeKeyExchanged), w.engine, w.entropy)
      else match w.engine.converse S now p (Turn.attach key) w.entropy with
        | (.error err, e, r) => (.error err, e, r)
        | (.ok (), e, r) =>
          match e.doKeyExchange S now p r with
          | (.error err, e, r) => (.error err, e, r)
          | (.ok (), e, r) => e.sendAck S now p r := by
  unfold Engine.receivedKeyExchange
  split
  · rfl
  rename_i hkey
  rw [converse_congr (Turn.receivedKeyExchange_stages hkey),
    converse_andThen S now p hw _ fun _ x => (Turn.adds_exchange x).andThen fun _ => Turn.adds_sendAck x]
  cases hattach : w.engine.converse S now p (Turn.attach key) w.entropy with
  | mk result rest =>
    obtain ⟨e, r⟩ := rest
    cases result with
    | error err => rfl
    | ok u =>
      obtain ⟨s, hsettled⟩ := settled_converse hw hattach
      have hexchange : e.converse S now p Turn.exchange r = e.doKeyExchange S now p r := by
        unfold doKeyExchange
        split
        · rename_i hfs
          exact converse_congr (fun t => if_pos hfs) r
        · rename_i hfs
          rw [converse_congr (v := fun _ t => (.ok (), t)) fun t => if_neg hfs]
          exact converse_idle hsettled _ r
      have hanswer := converse_andThen S now p (w := ⟨e, r, []⟩) hsettled.sound Turn.exchange
        fun (_ : Unit) x => Turn.adds_sendAck x
      simp only at hanswer ⊢
      rw [hanswer, hexchange]
      cases e.doKeyExchange S now p r with
      | mk result rest => cases result <;> rfl

/-- **A message is received in two stages**: it is opened, and what it brings is handled by the operation for it. -/
theorem disarmInbound_stages (S : Suite) (now : Nat) (hw : w.engine.sessions.Sound) (p : PublicKey) (m : ArmedMessage) :
    w.engine.disarmInbound S now p m w.entropy =
      match w.engine.converse S now p (Turn.openChecked m) w.entropy with
      | (.error err, e, r) => (.error err, e, r)
      | (.ok (.application payload, _), e, r) => (.ok (.application payload), e, r)
      | (.ok (.keyExchange key, longTime), e, r) =>
        if longTime && e.config.forwardSecrecy then
          match e.receivedKeyExchange S now p key r with
          | (.error err, e, r) => (.error err, e, r)
          | (.ok (), e, r) => (.ok .consumed, e, r)
        else (.ok .consumed, e, r)
      | (.ok (.acknowledgement id, _), e, r) =>
        if e.config.forwardSecrecy then
          match e.receivedAck S now p id r with
          | (.error err, e, r) => (.error err, e, r)
          | (.ok _, e, r) => (.ok .consumed, e, r)
        else (.ok .consumed, e, r) := by
  rw [Engine.disarmInbound, converse_congr (Turn.disarmInbound_stages m),
    converse_andThen S now p hw _ fun (opened : ArmMessage × Bool) x => Turn.adds_handle x opened.1 opened.2]
  cases hopen : w.engine.converse S now p (Turn.openChecked m) w.entropy with
  | mk result rest =>
    obtain ⟨e, r⟩ := rest
    cases result with
    | error err => rfl
    | ok opened =>
      obtain ⟨s, hsettled⟩ := settled_converse hw hopen
      obtain ⟨content, longTime⟩ := opened
      cases content with
      | application payload => exact converse_idle hsettled _ r
      | keyExchange key =>
        simp only
        split
        · rename_i hhandles
          rw [converse_congr (v := fun x t => ((t.receivedKeyExchange x key).1.map fun _ => .consumed,
            (t.receivedKeyExchange x key).2)) fun t => if_pos hhandles, converse_map,
            ← receivedKeyExchange_converse hsettled]
          cases e.receivedKeyExchange S now p key r with
          | mk result rest => cases result <;> rfl
        · rename_i hignores
          rw [converse_congr (v := fun _ t => (.ok .consumed, t)) fun t => if_neg hignores]
          exact converse_idle hsettled _ r
      | acknowledgement id =>
        simp only
        split
        · rename_i hfs
          have hack : e.receivedAck S now p id r =
              e.converse S now p (fun x t => (.ok (t.promote x id).1, (t.promote x id).2)) r := rfl
          rw [converse_congr (v := fun x t => (.ok .consumed, (t.promote x id).2)) fun t => if_pos hfs]
          have hmap := converse_map S now p (fun _ => Disarmed.consumed)
            (fun x t => (.ok (t.promote x id).1, (t.promote x id).2)) e r
          rw [← hack] at hmap
          refine hmap.trans ?_
          cases e.receivedAck S now p id r with
          | mk result rest => cases result <;> rfl
        · rename_i hignores
          rw [converse_congr (v := fun _ t => (.ok .consumed, t)) fun t => if_neg hignores]
          exact converse_idle hsettled _ r

end Endpoint

end Overlay
