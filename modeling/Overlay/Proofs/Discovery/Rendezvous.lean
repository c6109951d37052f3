import Overlay.Proofs.Discovery.Devoted
import Overlay.Proofs.Discovery.DirectPath

/-!
# A child that is introduced to a peer

A child that a super peer has introduced to a peer tries the address it was told.  While it hears of the peer from
there only, and for no longer than a path may be silent or idle, its record of the peer leads there and is not dropped,
and the application is told of the path once, when it is confirmed (`ChildSide.Seeks`).  There is one lemma for each
message that has to do with the peer: the introduction, which makes the record and greets the peer
(`seeks_introduced`), a greeting, which is answered if there is a record (`seeks_greetedOnPath`), and an acknowledgement,
which confirms the path if there is a record (`seeks_acknowledgedOnPath`).  Everything else leaves the record alone
(`ChildSide.Passes`).
-/

namespace Overlay

namespace DiscoveryConfig

/-- A moment is so soon after another one that no direct path has become stale since. -/
def Spans (C : DiscoveryConfig) (start now : Nat) : Prop :=
  start ≤ now ∧ now < start + C.helloTimeout.millis ∧ now < start + C.pathIdleTime.millis ∧ now ≤ lastMoment

instance (C : DiscoveryConfig) (start now : Nat) : Decidable (C.Spans start now) :=
  inferInstanceAs (Decidable (_ ∧ _))

variable {C : DiscoveryConfig} {start now : Nat}

theorem Spans.acknowledgementFresh (h : C.Spans start now) (hstart : 0 < start) {time : Nat} (htime : start ≤ time)
    (hoffset : C.withinTimeOffset time now = true) : C.acknowledgementFresh time now = true := by
  obtain ⟨-, hsoon, -, -⟩ := h
  have hrecent : now - C.helloTimeout.millis < time := by omega
  rw [DiscoveryConfig.acknowledgementFresh, hoffset, Bool.and_true]
  exact decide_eq_true hrecent

end DiscoveryConfig

def Event.directPath? (p : PublicKey) : Event → Option Address
  | .pathAdded peer addr .traversing => if peer = p then some addr else none
  | _ => none

namespace TraversingPeer

variable {r : TraversingPeer} {addr : Address} {start now : Nat}

/-- The record of a peer that was heard of at one address only, since a moment. -/
structure Leads (addr : Address) (start : Nat) (r : TraversingPeer) : Prop where
  current : r.addr = addr
  candidates : r.candidates = [addr]
  greeted : start ≤ r.firstHelloAt
  used : start ≤ r.lastApplicationAt

theorem addCandidate_known (haddr : r.addr = addr) (hcandidates : r.candidates = [addr]) : r.addCandidate addr = r := by
  obtain ⟨current, candidates, first, last, used⟩ := r
  obtain rfl : current = addr := haddr
  obtain rfl : candidates = [current] := hcandidates
  simp [addCandidate, dropOldest, maxCandidates]

theorem Leads.setAddr (h : Leads addr start r) : r.setAddr addr = r := by
  rw [TraversingPeer.setAddr, addCandidate_known h.current h.candidates, ← h.current]

theorem Leads.helloSent (h : Leads addr start r) (hstart : 0 < start) (now : Nat) : r.helloSent now = r :=
  if_neg fun hnever => absurd h.greeted (by omega)

theorem Leads.probed (h : Leads addr start r) : r.probed = [addr] := by
  rw [TraversingPeer.probed, h.current, h.candidates, ite_self]

theorem Leads.acknowledged (h : Leads addr start r) (now : Nat) : Leads addr start (r.acknowledged addr now) :=
  ⟨rfl, rfl, h.greeted, h.used⟩

end TraversingPeer

namespace ChildSide

variable {c c' c'' : ChildSide} {s p sender : PublicKey} {addr : Address} {start now : Nat} {time : UInt64}
  {past : List Address}

def toldPaths (p : PublicKey) (c : ChildSide) : List Address := c.events.filterMap (·.directPath? p)

theorem toldPaths_announce {news : List Event} (h : ∀ e ∈ news, e.directPath? p = none) :
    (c.announce news).toldPaths p = c.toldPaths p := by
  rw [toldPaths, announce, List.filterMap_append, List.filterMap_eq_nil_iff.2 h, List.append_nil]
  rfl

def Knows (p : PublicKey) (c : ChildSide) : Prop := (c.traversing.get? p).isSome = true

/-! ### What goes on besides -/

/-- What does not change of a child while messages come and heartbeats pass. -/
structure Remains (c c' : ChildSide) : Prop where
  config : c'.config = c.config
  own : c'.own = c.own
  superPeers : ∀ q, c'.isSuperPeer q = c.isSuperPeer q

/-- What a child knows of a peer is left alone, and nothing is told of a direct path to it. -/
structure Passes (p : PublicKey) (c c' : ChildSide) : Prop extends Remains c c' where
  record : c'.traversing.get? p = c.traversing.get? p
  size : c'.traversing.size ≤ c.traversing.size
  told : c'.toldPaths p = c.toldPaths p

theorem Passes.refl (p : PublicKey) (c : ChildSide) : Passes p c c := ⟨⟨rfl, rfl, fun _ => rfl⟩, rfl, Nat.le_refl _, rfl⟩

theorem Passes.trans (h : Passes p c c') (h' : Passes p c' c'') : Passes p c c'' :=
  ⟨⟨h'.config.trans h.config, h'.own.trans h.own, fun q => (h'.superPeers q).trans (h.superPeers q)⟩,
    h'.record.trans h.record, Nat.le_trans h'.size h.size, h'.told.trans h.told⟩

theorem isSuperPeer_mapValues (c : ChildSide) (f : PublicKey → SuperPeer → SuperPeer) (q : PublicKey) :
    isSuperPeer { c with superPeers := c.superPeers.mapValues f } q = c.isSuperPeer q := by
  simp only [isSuperPeer, Table.contains, Table.get?_mapValues, Option.isSome_map]

theorem passes_chooseGateway (p : PublicKey) (c : ChildSide) (now : Nat) : Passes p c (c.chooseGateway now) := by
  refine ⟨⟨rfl, rfl, isSuperPeer_mapValues c _⟩, rfl, Nat.le_refl _, toldPaths_announce (c := c) ?_⟩
  intro e he
  rcases List.mem_append.1 he with he | he
  · obtain ⟨_, -, rfl⟩ := List.mem_map.1 he
    rfl
  · split at he
    · cases he
    · rw [List.mem_singleton.1 he]
      rfl

theorem passes_acknowledgedBySuperPeer (p : PublicKey) (c : ChildSide) (now : Nat) (sender : PublicKey) (time : UInt64)
    (addr : Address) : Passes p c (c.acknowledgedBySuperPeer now sender time addr).2 := by
  rcases c.acknowledgedBySuperPeer_cases now sender time addr with hno | ⟨r, hr, hyes⟩
  · rw [hno]
    exact .refl p c
  rw [hyes]
  refine Passes.trans ?_ (passes_chooseGateway p _ now)
  refine ⟨⟨rfl, rfl, fun q => ?_⟩, rfl, Nat.le_refl _, toldPaths_announce (c := c) fun e he => ?_⟩
  · simp only [announce, isSuperPeer, Table.contains, Table.get?_insert]
    split
    · rename_i hq
      rw [hq, hr]
      rfl
    · rfl
  · split at he
    · cases he
    · rw [List.mem_singleton.1 he]
      rfl

theorem passes_record (hne : sender ≠ p) {r r' : TraversingPeer} (hr : c.traversing.get? sender = some r)
    (he : c'.toldPaths p = c.toldPaths p) (hremains : Remains c c')
    (ht : c'.traversing = c.traversing.insert sender r') : Passes p c c' := by
  refine ⟨hremains, ?_, ?_, he⟩
  · rw [ht, Table.get?_insert, if_neg (Ne.symm hne)]
  · rw [ht]
    exact Nat.le_of_eq (Table.size_insert_known hr r')

theorem passes_receive (hne : sender ≠ p) {m : DiscoveryMessage} (hm : ∀ peer at', m ≠ .unite peer at') (c : ChildSide)
    (now : Nat) (addr : Address) : Passes p c (c.receive now sender m addr).2 := by
  cases m with
  | acknowledgement time =>
    simp only [receive]
    split
    · exact passes_acknowledgedBySuperPeer p c now sender time addr
    · rcases c.acknowledgedOnPath_cases now sender time addr with hno | ⟨r, hr, hyes⟩
      · rw [hno]
        exact .refl p c
      · rw [hyes]
        refine passes_record hne hr (toldPaths_announce (c := c) fun e he => ?_) ⟨rfl, rfl, fun _ => rfl⟩ rfl
        split at he
        · rw [List.mem_singleton.1 he]
          exact if_neg hne
        · cases he
  | hello time childrenTime =>
    simp only [receive]
    rcases c.greetedOnPath_cases now sender time childrenTime addr with hno | ⟨r, hr, hyes⟩
    · rw [hno]
      exact .refl p c
    · rw [hyes]
      exact passes_record hne hr rfl ⟨rfl, rfl, fun _ => rfl⟩ rfl
  | unite peer at' => exact absurd rfl (hm peer at')
  | application payload => exact .refl p c

/-- Only greetings are answered, and only to their sender. -/
theorem outbox_receive {m : DiscoveryMessage} (hm : ∀ peer at', m ≠ .unite peer at') (c : ChildSide) (now : Nat)
    (sender : PublicKey) (addr : Address) : (c.receive now sender m addr).2.outbox = c.outbox ∨
      ∃ time childrenTime, m = .hello time childrenTime ∧
        (c.receive now sender m addr).2.outbox = c.outbox ++ [⟨sender, addr, .acknowledgement time⟩] := by
  cases m with
  | acknowledgement time =>
    refine Or.inl ?_
    simp only [receive]
    split
    · rcases c.acknowledgedBySuperPeer_cases now sender time addr with hno | ⟨r, -, hyes⟩
      · rw [hno]
      · rw [hyes]
        rfl
    · rcases c.acknowledgedOnPath_cases now sender time addr with hno | ⟨r, -, hyes⟩
      · rw [hno]
      · rw [hyes]
        rfl
  | hello time childrenTime =>
    simp only [receive]
    rcases c.greetedOnPath_cases now sender time childrenTime addr with hno | ⟨r, -, hyes⟩
    · rw [hno]
      exact Or.inl rfl
    · rw [hyes]
      exact Or.inr ⟨time, childrenTime, rfl, rfl⟩
  | unite peer at' => exact absurd rfl (hm peer at')
  | application payload => exact Or.inl rfl

/-! ### The way to the peer -/

/-- A child that a super peer introduces, since a moment, to a peer at an address.  If there is no record of the peer,
there is room for one; if there is one, it leads to that address; and the application was told of the path, on top of
what it was told before, if it is confirmed. -/
structure Seeks (s p : PublicKey) (addr : Address) (start : Nat) (past : List Address) (c : ChildSide) : Prop where
  superPeer : c.isSuperPeer s = true
  peer : c.isSuperPeer p = false
  own : p ≠ c.own
  room : ¬ Knows p c → c.config.maxPeers = 0 ∨ c.traversing.size < c.config.maxPeers
  record : ∀ r, c.traversing.get? p = some r → r.Leads addr start
  told : c.toldPaths p = past ++ (c.confirmedAddr? p).toList

theorem Passes.knows (h : Passes p c c') : Knows p c' ↔ Knows p c := by rw [Knows, Knows, h.record]

theorem Passes.confirms (h : Passes p c c') : c'.confirms p = c.confirms p := by
  rw [ChildSide.confirms, ChildSide.confirms, h.record]

theorem Seeks.passes (h : Seeks s p addr start past c) (hc : Passes p c c') : Seeks s p addr start past c' := by
  refine ⟨(hc.superPeers s).trans h.superPeer, (hc.superPeers p).trans h.peer, hc.own ▸ h.own, ?_, ?_, ?_⟩
  · intro hno
    rw [hc.config]
    exact (h.room (mt hc.knows.2 hno)).imp_right (Nat.lt_of_le_of_lt hc.size)
  · rw [hc.record]
    exact h.record
  · rw [hc.told, h.told, ChildSide.confirmedAddr?, ChildSide.confirmedAddr?, hc.record]

/-- The record that an introduction adds the peer to, the one there is or a new one, leads to the address then.  Its path
is confirmed if it was so before. -/
theorem Seeks.leads_introduced (h : Seeks s p addr start past c) (hnow : start ≤ now) {r : TraversingPeer}
    (hr : (c.traversing.get? p).getD (.ofAddress addr) = r) :
    r.addCandidate addr = r ∧ ((r.applicationSeen now).helloSent now).Leads addr start ∧
      ((r.applicationSeen now).helloSent now).confirmedAddr? = c.confirmedAddr? p ∧
      ((r.applicationSeen now).helloSent now).isConfirmed = c.confirms p := by
  have hbefore : r.addr = addr ∧ r.candidates = [addr] ∧ (r.firstHelloAt = 0 ∨ start ≤ r.firstHelloAt) ∧
      r.confirmedAddr? = c.confirmedAddr? p ∧ r.isConfirmed = c.confirms p := by
    rw [ChildSide.confirmedAddr?, ChildSide.confirms]
    subst hr
    cases hr : c.traversing.get? p with
    | none => exact ⟨rfl, rfl, Or.inl rfl, rfl, rfl⟩
    | some r =>
      have hleads := h.record r hr
      exact ⟨hleads.current, hleads.candidates, Or.inr hleads.greeted, rfl, rfl⟩
  obtain ⟨haddr, hcandidates, hgreeted, hpath, hconfirms⟩ := hbefore
  refine ⟨TraversingPeer.addCandidate_known haddr hcandidates, ?_,
    (TraversingPeer.confirmedAddr?_helloSent _ now).trans hpath, (confirmed_helloSent _ now).trans hconfirms⟩
  unfold TraversingPeer.helloSent
  split
  · exact ⟨haddr, hcandidates, hnow, hnow⟩
  · rename_i hnever
    exact ⟨haddr, hcandidates, hgreeted.resolve_left hnever, hnow⟩

theorem seeks_introduced (h : Seeks s p addr start past c) (hnow : start ≤ now) :
    let c' := (c.introduced now s p addr).2
    Seeks s p addr start past c' ∧ Remains c c' ∧ Knows p c' ∧ (c.confirms p = true → c'.confirms p = true) ∧
      c'.outbox = c.outbox ++ [⟨p, addr, .hello (.ofNat now) 0⟩] := by
  generalize hknown : (c.traversing.get? p).getD (.ofAddress addr) = r
  obtain ⟨hsame, hleads, hpath, hconfirms⟩ := h.leads_introduced hnow hknown
  have hfull : ¬ ((c.traversing.get? p).isNone && decide (c.config.maxPeers ≠ 0) &&
      decide (c.config.maxPeers ≤ c.traversing.size)) = true := by
    intro hfull
    simp only [Bool.and_eq_true, decide_eq_true_eq] at hfull
    obtain ⟨⟨hnone, hbound⟩, hle⟩ := hfull
    have hno : ¬ Knows p c := by rw [Knows, Option.isNone_iff_eq_none.1 hnone]; exact Bool.false_ne_true
    exact absurd hle (by have := (h.room hno).resolve_left hbound; omega)
  have hresult : (c.introduced now s p addr).2 = post
      { c with traversing := c.traversing.insert p ((r.applicationSeen now).helloSent now) }
      [⟨p, addr, .hello (.ofNat now) 0⟩] := by
    simp only [introduced, h.superPeer, Bool.not_true, Bool.false_or, decide_eq_true_eq, if_neg h.own, if_neg hfull,
      hknown, hsame]
    simp only [probes, hleads.probed, List.map_cons, List.map_nil]
  have hget : ∀ messages, (post { c with
      traversing := c.traversing.insert p ((r.applicationSeen now).helloSent now) } messages).traversing.get? p =
        some ((r.applicationSeen now).helloSent now) :=
    fun _ => (Table.get?_insert _ _ _ _).trans (if_pos rfl)
  rw [hresult]
  refine ⟨⟨h.superPeer, h.peer, h.own, ?_, ?_, ?_⟩, ⟨rfl, rfl, fun _ => rfl⟩, ?_, ?_, rfl⟩
  · intro hno
    rw [Knows, hget] at hno
    exact absurd rfl hno
  · intro r' hr'
    rw [hget] at hr'
    exact Option.some.inj hr' ▸ hleads
  · rw [ChildSide.confirmedAddr?, hget, Option.bind_some, hpath]
    exact h.told
  · rw [Knows, hget]
    rfl
  · intro hbefore
    rw [ChildSide.confirms, hget, Option.any_some, hconfirms]
    exact hbefore

theorem seeks_greetedOnPath (h : Seeks s p addr start past c) (hoffset : c.config.withinTimeOffset time.toNat now = true) :
    let c' := (c.greetedOnPath now p time 0 addr).2
    Passes p c c' ∧ (Knows p c → c'.outbox = c.outbox ++ [⟨p, addr, .acknowledgement time⟩]) ∧
      (¬ Knows p c → c'.outbox = c.outbox) := by
  have hcounts : ¬ (decide ((0 : UInt64) ≠ 0) || !c.config.withinTimeOffset time.toNat now) = true := by
    simp [hoffset]
  simp only [greetedOnPath, if_neg hcounts]
  cases hr : c.traversing.get? p with
  | none =>
    have hno : ¬ Knows p c := by rw [Knows, hr]; exact Bool.false_ne_true
    exact ⟨.refl p c, fun hk => absurd hk hno, fun _ => rfl⟩
  | some r =>
    have hyes : Knows p c := by rw [Knows, hr]; rfl
    refine ⟨⟨⟨rfl, rfl, fun _ => rfl⟩, ?_, ?_, rfl⟩, fun _ => rfl, fun hno => absurd hyes hno⟩
    · show (c.traversing.insert p (r.setAddr addr)).get? p = _
      rw [Table.get?_insert, if_pos rfl, (h.record r hr).setAddr, hr]
    · exact Nat.le_of_eq (Table.size_insert_known hr _)

/-- An acknowledgement from the address confirms the path if there is a record.  The application is told if it was not
confirmed before. -/
theorem seeks_acknowledgedOnPath (h : Seeks s p addr start past c) (hstart : 0 < start) (hnow : start ≤ now)
    (hfresh : c.config.acknowledgementFresh time.toNat now = true) :
    let c' := (c.acknowledgedOnPath now p time addr).2
    Seeks s p addr start past c' ∧ Remains c c' ∧ (Knows p c → Knows p c' ∧ c'.confirms p = true) ∧
      (c.confirms p = true → c'.confirms p = true) ∧ c'.outbox = c.outbox := by
  simp only [acknowledgedOnPath, hfresh, Bool.not_true, Bool.false_eq_true, if_false]
  cases hr : c.traversing.get? p with
  | none =>
    have hno : ¬ Knows p c := by rw [Knows, hr]; exact Bool.false_ne_true
    exact ⟨h, ⟨rfl, rfl, fun _ => rfl⟩, fun hk => absurd hk hno, id, rfl⟩
  | some r =>
    have hleads := h.record r hr
    have hconfirmed : (r.acknowledged addr now).isConfirmed = true := decide_eq_true (Nat.lt_of_lt_of_le hstart hnow)
    have hget : (c.traversing.insert p (r.acknowledged addr now)).get? p = some (r.acknowledged addr now) :=
      (Table.get?_insert _ _ _ _).trans (if_pos rfl)
    have hpath : c.confirmedAddr? p = if r.isConfirmed then some addr else none := by
      rw [ChildSide.confirmedAddr?, hr, Option.bind_some, TraversingPeer.confirmedAddr?, hleads.current]
    have hconfirms : ∀ c' : ChildSide, c'.traversing = c.traversing.insert p (r.acknowledged addr now) →
        Knows p c' ∧ c'.confirms p = true := by
      intro c' ht
      rw [Knows, ChildSide.confirms, ht, hget]
      exact ⟨rfl, hconfirmed⟩
    have htold : (c.toldPaths p ++ (if r.isConfirmed = true then [] else [addr])) = past ++ [addr] := by
      rw [h.told, hpath]
      cases r.isConfirmed <;> simp
    refine ⟨⟨h.superPeer, h.peer, h.own, fun hno => absurd (hconfirms _ rfl).1 hno, ?_, ?_⟩, ⟨rfl, rfl, fun _ => rfl⟩,
      fun _ => hconfirms _ rfl, fun _ => (hconfirms _ rfl).2, rfl⟩
    · intro r' hr'
      exact Option.some.inj (hget.symm.trans hr') ▸ hleads.acknowledged now
    · have hpath' : ∀ events, ChildSide.confirmedAddr? (announce
          { c with traversing := c.traversing.insert p (r.acknowledged addr now) } events) p = some addr := by
        intro events
        simp only [ChildSide.confirmedAddr?, announce, hget, Option.bind_some]
        exact TraversingPeer.confirmedAddr?_of hconfirmed
      rw [hpath', Option.toList_some, ← htold]
      simp only [toldPaths, announce, List.filterMap_append]
      congr 1
      cases hbefore : r.isConfirmed <;> simp [hleads.current, Event.directPath?]

/-! ### Heartbeats, and the way to the peer -/

theorem Seeks.fresh (h : Seeks s p addr start past c) (hstart : 0 < start) (hspans : c.config.Spans start now)
    {r : TraversingPeer} (hr : c.traversing.get? p = some r) : c.isStalePath now r = false := by
  have hleads := h.record r hr
  have hgreeted := hleads.greeted
  have hused := hleads.used
  obtain ⟨-, hsoon, hidle, -⟩ := hspans
  simp only [isStalePath, TraversingPeer.isStale, longAgo, Bool.or_eq_false_iff, decide_eq_false_iff_not]
  omega

theorem Seeks.passes_heartbeat (h : Seeks s p addr start past c) (hstart : 0 < start)
    (hspans : c.config.Spans start now) : Passes p c (c.heartbeat now) := by
  have hchosen := passes_chooseGateway p c now
  refine ⟨⟨rfl, rfl, ?_⟩, ?_, ?_, ?_⟩
  · intro q
    exact (isSuperPeer_mapValues _ _ q).trans (hchosen.superPeers q)
  · rw [get?_heartbeat]
    cases hr : c.traversing.get? p with
    | none => rfl
    | some r =>
      simp only [Option.filter, h.fresh hstart hspans hr, Bool.not_false, if_true, Option.map_some,
        (h.record r hr).helloSent hstart]
  · refine Nat.le_trans (Nat.le_of_eq (List.length_map _)) ?_
    exact List.length_filter_le _ _
  · refine Eq.trans (toldPaths_announce (c := c.chooseGateway now) ?_) hchosen.told
    intro e he
    obtain ⟨_, -, rfl⟩ := List.mem_map.1 he
    rfl

theorem seeks_heartbeat (h : Seeks s p addr start past c) (hstart : 0 < start) (hspans : c.config.Spans start now) :
    let c' := c.heartbeat now
    Passes p c c' ∧ (Knows p c → (⟨p, addr, .hello (.ofNat now) 0⟩ : Outbound) ∈ c'.outbox) ∧
      ∀ m ∈ c'.outbox, m ∈ c.outbox ∨ m = ⟨p, addr, .hello (.ofNat now) 0⟩ ∨
        m.recipient ≠ p ∧ ∃ time childrenTime, m.message = .hello time childrenTime := by
  have hpasses := h.passes_heartbeat hstart hspans
  have hprobes : ∀ r, (c.heartbeat now).traversing.get? p = some r →
      probes p r now = [⟨p, addr, .hello (.ofNat now) 0⟩] := by
    intro r hr
    rw [probes, (h.record r (hpasses.record ▸ hr)).probed, List.map_cons, List.map_nil]
  refine ⟨hpasses, ?_, ?_⟩
  · intro hknows
    obtain ⟨r, hr⟩ := Option.isSome_iff_exists.1 (hpasses.knows.2 hknows)
    rw [outbox_heartbeat]
    refine List.mem_append_right _ (List.mem_flatMap.2 ⟨(p, r), Table.mem_entries.2 hr, ?_⟩)
    rw [hprobes r hr]
    exact List.mem_cons_self
  · intro m hm
    rw [outbox_heartbeat] at hm
    rcases List.mem_append.1 hm with hm | hm
    · refine (List.mem_append.1 hm).imp_right fun hgreeting => Or.inr ?_
      obtain ⟨e, he, rfl⟩ := List.mem_map.1 hgreeting
      refine ⟨?_, _, _, rfl⟩
      rintro rfl
      have hsuper : c.isSuperPeer e.1 = true := by
        rw [isSuperPeer, Table.contains, Table.mem_entries.1 he]
        rfl
      exact Bool.false_ne_true (h.peer.symm.trans hsuper)
    · obtain ⟨⟨q, r⟩, hr, hprobe⟩ := List.mem_flatMap.1 hm
      refine Or.inr ?_
      by_cases hq : q = p
      · subst hq
        rw [hprobes r (Table.mem_entries.1 hr)] at hprobe
        exact Or.inl (List.mem_singleton.1 hprobe)
      · obtain ⟨_, -, rfl⟩ := List.mem_map.1 hprobe
        exact Or.inr ⟨hq, _, _, rfl⟩

theorem Seeks.route (h : Seeks s p addr start past c) (hstart : 0 < start) (hspans : c.config.Spans start now)
    (hconfirmed : c.confirms p = true) : (c.route now p).1 = some addr := by
  obtain ⟨r, hr, hyes⟩ := (Option.any_eq_true _ _).1 hconfirmed
  have hdirect : c.directPath? now p = some addr := by
    rw [directPath?, hr, Option.bind_some, hyes, h.fresh hstart hspans hr, (h.record r hr).current]
    rfl
  rw [ChildSide.route, hdirect]

end ChildSide

namespace SuperPeerSide

variable {s : SuperPeerSide} {e : Envelope} {a b : Child} {now : Nat}

theorem outbox_greeted (s : SuperPeerSide) (now : Nat) (sender : PublicKey) (time childrenTime : UInt64)
    (addr : Address) : (s.greeted now sender time childrenTime addr).2.outbox = s.outbox ∨
      (s.greeted now sender time childrenTime addr).2.outbox = s.outbox ++ [⟨sender, addr, .acknowledgement time⟩] := by
  unfold greeted
  split
  · exact Or.inl rfl
  · exact Or.inr rfl

/-- Two children that were not introduced lately are introduced to each other when an envelope goes from one to the
other. -/
theorem outbox_relay (ha : s.children.get? e.sender = some a) (hb : s.children.get? e.recipient = some b)
    (hown : e.recipient ≠ s.own) (hne : e.sender ≠ e.recipient) (hhops : e.hopCount < s.config.hopLimit)
    (hnew : ∀ attempts, s.attempts = some attempts →
      attempts.contains (PublicKey.ordered e.sender e.recipient) now = false) :
    (s.relay now e).2.outbox = s.outbox ++
      [⟨e.sender, a.addr, .unite e.recipient b.addr⟩, ⟨e.recipient, b.addr, .unite e.sender a.addr⟩] := by
  have hshould : ∃ attempts, s.shouldUnite now e.sender e.recipient = (true, { s with attempts := attempts }) := by
    have hchild : (!s.children.contains e.sender || decide (e.sender = e.recipient)) = false := by
      simp [Table.contains, ha, hne]
    simp only [shouldUnite, hchild, Bool.false_eq_true, if_false]
    split
    · exact ⟨s.attempts, rfl⟩
    · rename_i attempts hattempts
      rw [if_neg (by rw [hnew attempts hattempts]; exact Bool.false_ne_true)]
      exact ⟨_, rfl⟩
  obtain ⟨attempts, hshould⟩ := hshould
  simp only [relay, if_neg hown, hb, if_neg (UInt8.not_le.2 hhops), hshould, if_true, unite, ha]
  rfl

end SuperPeerSide

end Overlay
