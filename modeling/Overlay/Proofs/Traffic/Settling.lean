import Overlay.Proofs.Engine.Credit
import Overlay.Proofs.Traffic.Basic

/-!
# Settling down

Two engines that have been through anything, with each other and no third one, are left to themselves while the clock
stands still: they do their jobs, hand their protocol messages to the network, and the network delivers messages, each
once at most.  Then each of them sends two more keys at most, and the acknowledgements that are still sent outnumber
the offers under way by four at most.  So they cannot go on forever, and whatever they do comes to an end when nothing
is left to do (`Traffic.settles`).

Keys are sent on credit, which nothing restores while the clock stands still.  An acknowledgement uses up an offer, and
is none itself.  Out of this comes a measure that every action with something to do makes smaller (`Traffic.burden`): a
key weighs as much as the job, the offer and the acknowledgement that may come of it.
-/

namespace Overlay

def Side.total (f : Side → Nat) : Nat := f .left + f .right

theorem Side.total_eq (f : Side → Nat) (a : Side) : Side.total f = f a + f a.other := by
  cases a with
  | left => rfl
  | right => exact Nat.add_comm _ _

namespace Traffic

open Engine Endpoint

variable {S : Suite} {secret : Side → SecretKey} {v v' v'' : Traffic} {now : Nat} {acts : List Action}

/-- An end does its jobs or hands its protocol messages over, or a message arrives. -/
def Action.Settles : Action → Prop
  | runDeferred _ | collect _ | deliver _ _ => True
  | arm _ _ | evictIdleSessions _ | drainEvents _ | lose _ _ | copy _ _ => False

instance : DecidablePred Action.Settles
  | .runDeferred _ | .collect _ | .deliver _ _ => inferInstanceAs (Decidable True)
  | .arm _ _ | .evictIdleSessions _ | .drainEvents _ | .lose _ _ | .copy _ _ => inferInstanceAs (Decidable False)

/-- There is something to do: a job, a message to hand over, or a message to deliver. -/
def Moving (v : Traffic) : Action → Prop
  | .runDeferred a => (v.ends a).engine.deferred ≠ []
  | .collect a => (v.ends a).engine.outbox ≠ []
  | .deliver a k => k < (v.toward a).length
  | _ => False

instance (v : Traffic) : DecidablePred v.Moving
  | .runDeferred _ | .collect _ => inferInstanceAs (Decidable (_ ≠ _))
  | .deliver _ _ => inferInstanceAs (Decidable (_ < _))
  | .arm _ _ | .evictIdleSessions _ | .drainEvents _ | .lose _ _ | .copy _ _ => inferInstanceAs (Decidable False)

/-- Actions that find something to do, each in its turn. -/
def Busy (S : Suite) (now : Nat) (v : Traffic) : List Action → Prop
  | [] => True
  | act :: acts => v.Moving act ∧ (v.act S now act).Busy S now acts

instance decidableBusy (S : Suite) (now : Nat) (v : Traffic) : (acts : List Action) → Decidable (v.Busy S now acts)
  | [] => inferInstanceAs (Decidable True)
  | act :: acts =>
    have := decidableBusy S now (v.act S now act) acts
    inferInstanceAs (Decidable (_ ∧ _))

def Quiet (v : Traffic) : Prop :=
  ∀ a, (v.ends a).engine.outbox = [] ∧ (v.ends a).engine.deferred = [] ∧ v.toward a = []

theorem Moving.settle {act : Action} (h : v.Moving act) : act.Settles := by
  cases act <;> trivial

theorem Busy.settle (h : v.Busy S now acts) : ∀ act ∈ acts, act.Settles := by
  induction acts generalizing v with
  | nil => exact nofun
  | cons act acts ih => exact List.forall_mem_cons.2 ⟨h.1.settle, ih h.2⟩

/-- While something is left to do, there is an action that does it. -/
theorem quiet_of_still (h : ∀ act, ¬ v.Moving act) : v.Quiet := by
  intro a
  refine ⟨Decidable.not_not.1 (h (.collect a)), Decidable.not_not.1 (h (.runDeferred a)), ?_⟩
  exact List.eq_nil_of_length_eq_zero (Nat.eq_zero_of_not_pos (h (.deliver a 0)))

/-! ### What there is -/

def waiting (v : Traffic) (a : Side) : List ArmedMessage := (v.ends a).engine.outbox.map (·.armed)

/-- The messages on their way, or in an outbox. -/
def underWay (v : Traffic) : Nat := Side.total fun a => (v.toward a).length + (v.waiting a).length

def offersTo (S : Suite) (secret : Side → SecretKey) (a : Side) (l : List ArmedMessage) : Nat :=
  l.countP (offersKey S (S.keyPair (secret a)) (S.publicOf (secret a.other)))

/-- The offers of keys on their way, or in an outbox. -/
def offers (S : Suite) (secret : Side → SecretKey) (v : Traffic) : Nat :=
  Side.total fun a => offersTo S secret a (v.toward a) + offersTo S secret a.other (v.waiting a)

theorem offers_le (S : Suite) (secret : Side → SecretKey) (v : Traffic) : v.offers S secret ≤ v.underWay :=
  Nat.add_le_add (Nat.add_le_add List.countP_le_length List.countP_le_length)
    (Nat.add_le_add List.countP_le_length List.countP_le_length)

def keysSent (v : Traffic) (a : Side) : Nat := (Seal.keys (v.sealed a)).length

def acksSent (v : Traffic) (a : Side) : Nat := (Seal.acks (v.sealed a)).length

def credit (S : Suite) (secret : Side → SecretKey) (now : Nat) (v : Traffic) (a : Side) : Nat :=
  (v.ends a).credit now (S.publicOf (secret a.other))

/-- What is to come of an end, and of the messages on their way to it. -/
def burden (S : Suite) (secret : Side → SecretKey) (now : Nat) (v : Traffic) (a : Side) : Nat :=
  6 * v.credit S secret now a + (if (v.ends a).engine.deferred = [] then 0 else 1) +
    (2 * (v.toward a).length + 3 * offersTo S secret a (v.toward a)) +
    (3 * (v.waiting a).length + 3 * offersTo S secret a.other (v.waiting a))

theorem burden_le (S : Suite) (secret : Side → SecretKey) (now : Nat) (v : Traffic) :
    Side.total (v.burden S secret now) ≤ 6 * v.underWay + 26 := by
  have hside : ∀ a, v.burden S secret now a ≤ 6 * ((v.toward a).length + (v.waiting a).length) + 13 := by
    intro a
    have hcredit : v.credit S secret now a ≤ 2 := credit_le now _ _
    have htoward : offersTo S secret a (v.toward a) ≤ (v.toward a).length := List.countP_le_length
    have hwaiting : offersTo S secret a.other (v.waiting a) ≤ (v.waiting a).length := List.countP_le_length
    unfold burden
    split <;> omega
  have hleft := hside .left
  have hright := hside .right
  simp only [underWay, Side.total]
  omega

/-! ### One action -/

/-- Both ends are who they are, and talk with each other only. -/
structure Devoted (S : Suite) (secret : Side → SecretKey) (v : Traffic) : Prop where
  ends : ∀ a, (v.ends a).Devoted S (S.publicOf (secret a.other))
  identity : ∀ a, (v.ends a).engine.identity = S.keyPair (secret a)

theorem Devoted.address (h : v.Devoted S secret) (a : Side) : v.address a = S.publicOf (secret a) :=
  congrArg KeyPair.publicKey (h.identity a)

theorem Devoted.concerns {act : Action} (h : v.Devoted S secret) {op : Operation} (hop : v.operation act = some op) :
    op.Concerns (S.publicOf (secret act.side.other)) := by
  rw [← h.address]
  cases act with
  | deliver a k =>
    obtain ⟨m, -, rfl⟩ := Option.map_eq_some_iff.1 hop
    rfl
  | lose a k => cases hop
  | copy a k => cases hop
  | _ =>
    cases hop
    first | rfl | trivial

theorem Devoted.act (h : v.Devoted S secret) (now : Nat) (act : Action) : (v.act S now act).Devoted S secret where
  ends := ends_act_keeps (P := fun a w => w.Devoted S (S.publicOf (secret a.other))) h.ends
    fun _ hop => (h.ends act.side).perform (h.concerns hop) now
  identity := ends_act_keeps (P := fun a w => w.engine.identity = S.keyPair (secret a)) h.identity
    fun op _ => (op.course S now (h.ends act.side).sound).identity.trans (h.identity act.side)

/-- What happened between two states: keys were sent on credit, and acknowledgements used up offers, of which there are
no new ones but the keys that were sent. -/
structure Accounts (S : Suite) (secret : Side → SecretKey) (now : Nat) (v v' : Traffic) : Prop where
  keys : ∀ a, v'.keysSent a + v'.credit S secret now a ≤ v.keysSent a + v.credit S secret now a
  acks : Side.total v'.acksSent + v'.offers S secret + Side.total v.keysSent ≤
    Side.total v.acksSent + v.offers S secret + Side.total v'.keysSent

theorem Accounts.refl (S : Suite) (secret : Side → SecretKey) (now : Nat) (v : Traffic) :
    Accounts S secret now v v := ⟨fun _ => Nat.le_refl _, Nat.le_refl _⟩

theorem Accounts.trans (h : Accounts S secret now v v') (g : Accounts S secret now v' v'') :
    Accounts S secret now v v'' := by
  refine ⟨fun a => (g.keys a).trans (h.keys a), ?_⟩
  have hfirst := h.acks
  have hsecond := g.acks
  omega

/-- One end sends keys, on credit, and acknowledgements; the other end does nothing. -/
structure Sends (S : Suite) (secret : Side → SecretKey) (now : Nat) (v v' : Traffic) (a : Side) (l : List Seal) :
    Prop where
  sealed : v'.sealed a = v.sealed a ++ l
  sealed_other : v'.sealed a.other = v.sealed a.other
  ends_other : v'.ends a.other = v.ends a.other
  credit : v'.credit S secret now a + (Seal.keys l).length ≤ v.credit S secret now a

theorem Sends.credit_other {a : Side} {l : List Seal} (h : Sends S secret now v v' a l) :
    v'.credit S secret now a.other = v.credit S secret now a.other := by
  rw [Traffic.credit, h.ends_other, ← Traffic.credit]

theorem Sends.waiting_other {a : Side} {l : List Seal} (h : Sends S secret now v v' a l) :
    v'.waiting a.other = v.waiting a.other := by rw [waiting, h.ends_other, ← waiting]

theorem Sends.accounts {a : Side} {l : List Seal} (h : Sends S secret now v v' a l)
    (hoffers : v'.offers S secret + (Seal.acks l).length ≤ v.offers S secret + (Seal.keys l).length) :
    Accounts S secret now v v' := by
  have hkeys : v'.keysSent a = v.keysSent a + (Seal.keys l).length := by
    rw [keysSent, h.sealed, Seal.keys_append, List.length_append, ← keysSent]
  have hacks : v'.acksSent a = v.acksSent a + (Seal.acks l).length := by
    rw [acksSent, h.sealed, Seal.acks_append, List.length_append, ← acksSent]
  have hkeys' : v'.keysSent a.other = v.keysSent a.other := by rw [keysSent, h.sealed_other, ← keysSent]
  have hacks' : v'.acksSent a.other = v.acksSent a.other := by rw [acksSent, h.sealed_other, ← acksSent]
  have hcredit := h.credit
  constructor
  · intro b
    rcases Side.eq_or_eq_other a b with rfl | rfl
    · omega
    · rw [hkeys', h.credit_other]
  · simp only [Side.total_eq _ a, hkeys, hacks, hkeys', hacks']
    omega

/-- **What an end sends is taken from its credit**, and is added to its outbox. -/
theorem Devoted.posts {op : Operation} {l : List Seal} (h : v.Devoted S secret) (hC : S.Commutes) (hO : S.Opens)
    (act : Action) (hop : v.operation act = some op) (harm : ∀ peer payload, op ≠ .armOutbound peer payload)
    (hdrain : op ≠ .drainOutbox) (hl : op.seals S now (v.ends act.side) = l)
    (hspends : Spends S now (S.publicOf (secret act.side.other)) (v.ends act.side)
      (op.perform S now (v.ends act.side)) l) :
    Sends S secret now v (v.act S now act) act.side l ∧
    ((v.act S now act).waiting act.side).length =
      (v.waiting act.side).length + ((Seal.keys l).length + (Seal.acks l).length) ∧
    offersTo S secret act.side.other ((v.act S now act).waiting act.side) =
      offersTo S secret act.side.other (v.waiting act.side) + (Seal.keys l).length := by
  have hends := ends_act_side S now v act
  rw [hop, Option.elim_some] at hends
  have hsealed : (v.act S now act).sealed act.side = v.sealed act.side ++ l := by
    rw [← hl]
    exact (Function.update_self act.side _ _).trans (by rw [hop]; rfl)
  have hposted : (v.act S now act).waiting act.side = v.waiting act.side ++ l.map Seal.message := by
    rw [waiting, hends, Operation.outbox_perform op harm hdrain, hl, List.map_append, List.map_map]
    rfl
  -- the offers among the missives of an end are the keys
  have hoffers : offersTo S secret act.side.other (l.map Seal.message) = (Seal.keys l).length := by
    rw [offersTo, List.countP_map, Seal.keys, ← List.countP_eq_length_filter, Side.other_other]
    refine List.countP_congr ?_
    intro s hs
    have hmissive := hspends.missives s hs
    rw [h.identity] at hmissive
    rw [Function.comp_apply, hmissive.offersKey hC hO]
  refine ⟨⟨hsealed, Function.update_of_ne (Side.other_ne act.side) _ _, ends_act_other S now v act, ?_⟩, ?_, ?_⟩
  · rw [credit, hends]
    exact hspends.credit
  · rw [hposted, List.length_append, List.length_map, Seal.length_negotiation hspends.negotiation]
  · rw [hposted, offersTo, List.countP_append, ← offersTo, ← offersTo, hoffers]

theorem sends_nothing (act : Action) (hseals : (v.operation act).elim [] (·.seals S now (v.ends act.side)) = [])
    (hcredit : (v.act S now act).credit S secret now act.side = v.credit S secret now act.side) :
    Sends S secret now v (v.act S now act) act.side [] where
  sealed := (Function.update_self act.side _ _).trans (congrArg (v.sealed act.side ++ ·) hseals)
  sealed_other := Function.update_of_ne (Side.other_ne act.side) _ _
  ends_other := ends_act_other S now v act
  credit := hcredit.le

def Settling (S : Suite) (secret : Side → SecretKey) (now : Nat) (v : Traffic) (act : Action) : Prop :=
  Accounts S secret now v (v.act S now act) ∧
    (v.Moving act → Side.total ((v.act S now act).burden S secret now) < Side.total (v.burden S secret now))

/-- The jobs of an end may send keys, but leave no job. -/
theorem Devoted.settles_runDeferred (h : v.Devoted S secret) (hC : S.Commutes) (hO : S.Opens) (now : Nat) (a : Side) :
    Settling S secret now v (.runDeferred a) := by
  obtain ⟨hspends, hnone, hjobs⟩ := (h.ends a).runDeferred now
  have hposts := h.posts hC hO (.runDeferred a) rfl nofun nofun rfl hspends
  simp only [Action.side] at hposts
  obtain ⟨hsends, hwaiting, hoffers⟩ := hposts
  have htoward : (v.act S now (.runDeferred a)).toward a = v.toward a := toward_act_side S now v (.runDeferred a)
  have htoward' : (v.act S now (.runDeferred a)).toward a.other = v.toward a.other :=
    (toward_act_other S now v (.runDeferred a)).trans (List.append_nil _)
  have hdone : ((v.act S now (.runDeferred a)).ends a).engine.deferred = [] :=
    (congrArg (·.engine.deferred) (ends_act_side S now v (.runDeferred a))).trans hjobs
  have hcredit := hsends.credit
  rw [hnone, List.length_nil] at hwaiting
  constructor
  · refine hsends.accounts ?_
    simp only [offers, Side.total_eq _ a, htoward, htoward', hsends.waiting_other, hoffers, hnone, List.length_nil]
    omega
  · intro hmoving
    have hbusy : ¬ (v.ends a).engine.deferred = [] := hmoving
    simp only [burden, Side.total_eq _ a, htoward, htoward', hsends.waiting_other, hsends.credit_other,
      hsends.ends_other, hwaiting, hoffers, hdone, if_true, if_neg hbusy]
    omega

theorem offersTo_eraseIdx (S : Suite) (secret : Side → SecretKey) (a : Side) {l : List ArmedMessage} {k : Nat}
    {m : ArmedMessage} (hm : l[k]? = some m) :
    offersTo S secret a (l.eraseIdx k) +
      (offersKey S (S.keyPair (secret a)) (S.publicOf (secret a.other)) m).toNat = offersTo S secret a l ∧
    (l.eraseIdx k).length + 1 = l.length := by
  obtain ⟨hk, rfl⟩ := List.getElem?_eq_some_iff.1 hm
  have hperm := List.getElem_cons_eraseIdx_perm hk
  refine ⟨?_, by rw [← hperm.length_eq, List.length_cons]⟩
  unfold offersTo
  rw [← hperm.countP_eq, List.countP_cons]
  cases offersKey S (S.keyPair (secret a)) (S.publicOf (secret a.other)) l[k] <;> rfl

/-- A message that arrives may call for a job and a key, and an offer for an acknowledgement. -/
theorem Devoted.settles_deliver (h : v.Devoted S secret) (hC : S.Commutes) (hO : S.Opens) (now : Nat) (a : Side)
    (k : Nat) : Settling S secret now v (.deliver a k) := by
  have htoward : (v.act S now (.deliver a k)).toward a = (v.toward a).eraseIdx k :=
    toward_act_side S now v (.deliver a k)
  have htoward' : (v.act S now (.deliver a k)).toward a.other = v.toward a.other :=
    (toward_act_other S now v (.deliver a k)).trans (List.append_nil _)
  cases hm : (v.toward a)[k]? with
  | none =>
    have hop : v.operation (.deliver a k) = none := by
      rw [operation, hm]
      rfl
    have hk := List.getElem?_eq_none_iff.1 hm
    have hends : (v.act S now (.deliver a k)).ends a = v.ends a :=
      (ends_act_side S now v (.deliver a k)).trans (by rw [hop]; rfl)
    have hsends : Sends S secret now v (v.act S now (.deliver a k)) a [] :=
      sends_nothing (.deliver a k) (by rw [hop]; rfl) (congrArg (Endpoint.credit now _) hends)
    have hwaiting : (v.act S now (.deliver a k)).waiting a = v.waiting a := by rw [waiting, hends, ← waiting]
    rw [List.eraseIdx_of_length_le hk] at htoward
    refine ⟨hsends.accounts ?_, fun hmoving => absurd (show k < (v.toward a).length from hmoving) (Nat.not_lt.2 hk)⟩
    simp only [offers, Side.total_eq _ a, htoward, htoward', hsends.waiting_other, hwaiting]
    exact Nat.le_refl _
  | some m =>
    have hop : v.operation (.deliver a k) = some (.disarmInbound (S.publicOf (secret a.other)) m) := by
      rw [operation, hm, h.address]
      rfl
    have hspends := (h.ends a).spends now (.disarmInbound (S.publicOf (secret a.other)) m) rfl nofun nofun nofun
    have hacked := (h.ends a).acks_disarmInbound now m
    rw [h.identity] at hacked
    have hposts := h.posts hC hO (.deliver a k) hop nofun nofun (if_neg nofun) hspends
    simp only [Action.side] at hposts
    obtain ⟨hsends, hwaiting, hoffers⟩ := hposts
    obtain ⟨hread, hlength⟩ := offersTo_eraseIdx S secret a hm
    have hcredit := hsends.credit
    constructor
    · refine hsends.accounts ?_
      simp only [offers, Side.total_eq _ a, htoward, htoward', hsends.waiting_other, hoffers]
      omega
    · intro _
      have hjobs : ∀ w : Endpoint, (if w.engine.deferred = [] then 0 else 1) ≤ 1 := by
        intro w
        split <;> omega
      have hjobs₀ := hjobs (v.ends a)
      have hjobs₁ := hjobs ((v.act S now (.deliver a k)).ends a)
      simp only [burden, Side.total_eq _ a, htoward, htoward', hsends.waiting_other, hsends.credit_other,
        hsends.ends_other, hwaiting, hoffers]
      omega

theorem settles_collect (S : Suite) (secret : Side → SecretKey) (now : Nat) (v : Traffic) (a : Side) :
    Settling S secret now v (.collect a) := by
  have hsends : Sends S secret now v (v.act S now (.collect a)) a [] := by
    refine sends_nothing (.collect a) rfl ?_
    rw [credit, ends_act_side]
    rfl
  have htoward : (v.act S now (.collect a)).toward a = v.toward a := toward_act_side S now v (.collect a)
  have htoward' := toward_act_other S now v (.collect a)
  have hsaid : (v.said S now (.collect a)).Sublist (v.waiting a) := (List.filter_sublist).map _
  simp only [Action.side] at htoward'
  have hends : (v.act S now (.collect a)).ends a = Operation.drainOutbox.perform S now (v.ends a) :=
    ends_act_side S now v (.collect a)
  have hwaiting : (v.act S now (.collect a)).waiting a = [] := by
    rw [waiting, hends]
    rfl
  have hjobs : ((v.act S now (.collect a)).ends a).engine.deferred = (v.ends a).engine.deferred := by
    rw [hends]
    rfl
  have hcredit := hsends.credit
  have hlength := hsaid.length_le
  have hoffers : offersTo S secret a.other (v.said S now (.collect a)) ≤ offersTo S secret a.other (v.waiting a) :=
    hsaid.countP_le
  have happend : offersTo S secret a.other (v.toward a.other ++ v.said S now (.collect a)) =
      offersTo S secret a.other (v.toward a.other) + offersTo S secret a.other (v.said S now (.collect a)) :=
    List.countP_append
  have hnone : offersTo S secret a.other [] = 0 := rfl
  have hquiet : (Seal.acks []).length = 0 := rfl
  constructor
  · refine hsends.accounts ?_
    simp only [offers, Side.total_eq _ a, htoward, htoward', hsends.waiting_other, hwaiting, happend, hnone]
    omega
  · intro hmoving
    have hsome : 0 < (v.waiting a).length := by
      rw [waiting, List.length_map]
      exact List.length_pos_iff.2 hmoving
    simp only [burden, Side.total_eq _ a, htoward, htoward', hsends.waiting_other, hsends.credit_other,
      hsends.ends_other, hwaiting, hjobs, happend, hnone, List.length_append, List.length_nil]
    omega

/-- **An action that settles keeps the accounts**, and lightens the burden if it finds something to do. -/
theorem Devoted.settling {act : Action} (h : v.Devoted S secret) (hC : S.Commutes) (hO : S.Opens) (now : Nat)
    (hact : act.Settles) : Settling S secret now v act := by
  cases act with
  | runDeferred a => exact h.settles_runDeferred hC hO now a
  | deliver a k => exact h.settles_deliver hC hO now a k
  | collect a => exact settles_collect S secret now v a
  | _ => exact hact.elim

/-! ### All actions -/

theorem Devoted.accounts (h : v.Devoted S secret) (hC : S.Commutes) (hO : S.Opens) (now : Nat)
    (hacts : ∀ act ∈ acts, act.Settles) : Accounts S secret now v (v.run S (acts.map (now, ·))) := by
  induction acts generalizing v with
  | nil => exact .refl S secret now v
  | cons act acts ih =>
    obtain ⟨hact, hrest⟩ := List.forall_mem_cons.1 hacts
    exact (h.settling hC hO now hact).1.trans (ih (h.act now act) hrest)

/-- Actions that find something to do are no more than the burden. -/
theorem Devoted.busy_le (h : v.Devoted S secret) (hC : S.Commutes) (hO : S.Opens) (now : Nat)
    (hacts : v.Busy S now acts) : acts.length ≤ Side.total (v.burden S secret now) := by
  induction acts generalizing v with
  | nil => exact Nat.zero_le _
  | cons act acts ih =>
    have hless := (h.settling hC hO now hacts.1.settle).2 hacts.1
    have hrest := ih (h.act now act) hacts.2
    rw [List.length_cons]
    omega

/-- An action adds to the record of its end what it makes the end emit. -/
theorem recorded (S : Suite) (now : Nat) (v : Traffic) (act : Action) :
    ∃ l, (v.act S now act).sealed = Function.update v.sealed act.side (v.sealed act.side ++ l) ∧
      (v.operation act).elim (l = []) (·.Emits S now (v.ends act.side) l) := by
  refine ⟨_, rfl, ?_⟩
  cases v.operation act with
  | none => rfl
  | some op => exact op.emits_seals S now (v.ends act.side)

/-- **Protocol chatter dies out.**  Two engines have been through any operations, each with the other one only, and any
messages are on their way to them.  While the clock stands still, they do jobs, hand protocol messages over and receive
messages, each once at most, in any order.  Then each sends two keys at most, and the acknowledgements that both send
are four more at most than the offers of keys under way before, which are no more than the messages.  As long as each
action finds something to do there are no more than `6 * m + 26` of them, where `m` messages were under way before; and
when no action does any more, nothing is left in the outboxes, among the jobs and on the way.  Sent is what an end adds
to its outbox or hands over. -/
theorem settles (hC : S.Commutes) (hO : S.Opens) (secret : Side → SecretKey) (config : Side → ArmConfig)
    (entropy : Side → Entropy) (past : Side → List (Nat × Operation))
    (hpast : ∀ a, ∀ o ∈ past a, o.2.Concerns (S.publicOf (secret a.other))) (toward : Side → List ArmedMessage)
    (now : Nat) (v : Traffic)
    (hv : v = ⟨fun a => (Endpoint.start (S.keyPair (secret a)) (config a) (entropy a)).run S (past a), toward,
      fun _ => []⟩) (acts : List Action) :
    (∀ (u : Traffic) act, ∃ l,
      (u.act S now act).sealed = Function.update u.sealed act.side (u.sealed act.side ++ l) ∧
      (u.operation act).elim (l = []) (·.Emits S now (u.ends act.side) l)) ∧
    ((∀ act ∈ acts, act.Settles) → (∀ a, (v.run S (acts.map (now, ·))).keysSent a ≤ 2) ∧
      Side.total (v.run S (acts.map (now, ·))).acksSent ≤ v.offers S secret + 4) ∧
    v.offers S secret ≤ v.underWay ∧
    (v.Busy S now acts → acts.length ≤ 6 * v.underWay + 26) ∧
    ((∀ act, ¬ (v.run S (acts.map (now, ·))).Moving act) → (v.run S (acts.map (now, ·))).Quiet) := by
  subst hv
  have hdevoted : Devoted S secret ⟨fun a => (Endpoint.start (S.keyPair (secret a)) (config a) (entropy a)).run S
      (past a), toward, fun _ => []⟩ := by
    refine ⟨fun a => (Devoted.start S _ _ _ _).run (hpast a), fun a => ?_⟩
    exact identity_run (sound_start _ _ _) (past a)
  generalize hv : (⟨fun a => (Endpoint.start (S.keyPair (secret a)) (config a) (entropy a)).run S (past a), toward,
    fun _ => []⟩ : Traffic) = v at hdevoted ⊢
  have hsealed : ∀ a, v.sealed a = [] := fun a => hv ▸ rfl
  refine ⟨recorded S now, ?_, offers_le S secret v, ?_, quiet_of_still⟩
  · intro hacts
    have haccounts := hdevoted.accounts hC hO now hacts
    generalize v.run S (acts.map (now, ·)) = v' at haccounts ⊢
    have hkeys : ∀ a, v'.keysSent a ≤ 2 := by
      intro a
      have hnone : v.keysSent a = 0 := by rw [keysSent, hsealed]; rfl
      have hcredit : v.credit S secret now a ≤ 2 := credit_le now _ _
      have hspent := haccounts.keys a
      omega
    refine ⟨hkeys, ?_⟩
    have hnone : Side.total v.acksSent = 0 := by
      simp only [Side.total, acksSent, hsealed]
      rfl
    have hsent : Side.total v'.keysSent ≤ 4 := Nat.add_le_add (hkeys .left) (hkeys .right)
    have hacks := haccounts.acks
    omega
  · intro hbusy
    exact (hdevoted.busy_le hC hO now hbusy).trans (burden_le S secret now v)

/-- The left end has said something, and has its key in the outbox. -/
def opening (a : Side) : List (Nat × Operation) :=
  if a = .left then [(1, .armOutbound (Textbook.suite.publicOf (secrets .right)) [1]), (2, .runDeferred)] else []

def opened : Traffic :=
  ⟨fun a => (Endpoint.start (Textbook.suite.keyPair (secrets a)) {} (sources a)).run Textbook.suite (opening a),
    fun _ => [], fun _ => []⟩

/-- The key arrives and is answered, the answer and the acknowledgement arrive, and so does the last
acknowledgement. -/
def course : List Action := [.collect .left, .deliver .right 0, .runDeferred .right, .collect .right, .deliver .left 0,
  .deliver .left 0, .runDeferred .left, .collect .left, .deliver .right 0, .runDeferred .right]

/-- After the opening, the ends settle down. -/
theorem settles_opened : (∀ a, (opened.run Textbook.suite (course.map (2, ·))).keysSent a ≤ 2) ∧
    Side.total (opened.run Textbook.suite (course.map (2, ·))).acksSent ≤ opened.offers Textbook.suite secrets + 4 ∧
    course.length ≤ 6 * opened.underWay + 26 ∧ (opened.run Textbook.suite (course.map (2, ·))).Quiet := by
  have hconcerns : ∀ a, ∀ o ∈ opening a, o.2.Concerns (Textbook.suite.publicOf (secrets a.other)) := by
    decide +kernel
  have hstill : ∀ act, ¬ (opened.run Textbook.suite (course.map (2, ·))).Moving act := by
    have hjobs : ∀ a, ((opened.run Textbook.suite (course.map (2, ·))).ends a).engine.deferred = [] := by
      decide +kernel
    have houtbox : ∀ a, ((opened.run Textbook.suite (course.map (2, ·))).ends a).engine.outbox = [] := by
      decide +kernel
    have htoward : ∀ a, ((opened.run Textbook.suite (course.map (2, ·))).toward a).length = 0 := by decide +kernel
    intro act hmoving
    cases act with
    | runDeferred a => exact hmoving (hjobs a)
    | collect a => exact hmoving (houtbox a)
    | deliver a k => exact Nat.not_lt_zero k (htoward a ▸ hmoving)
    | _ => exact hmoving
  obtain ⟨-, hsent, -, hlength, hquiet⟩ := settles Textbook.suite_commutes Textbook.suite_opens secrets (fun _ => {})
    sources opening hconcerns (fun _ => []) 2 opened rfl course
  have hbusy : opened.Busy Textbook.suite 2 course := by decide +kernel
  exact ⟨(hsent hbusy.settle).1, (hsent hbusy.settle).2, hlength hbusy, hquiet hstill⟩

end Traffic

end Overlay
