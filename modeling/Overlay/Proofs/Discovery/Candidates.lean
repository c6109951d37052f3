import Mathlib.Data.List.Nodup
import Overlay.Proofs.Discovery.Rendezvous

/-!
# The peers a child tries to reach directly

The record of a peer on a direct path has a few addresses to try, and the current one is among them
(`TraversingPeer.Proper`).  Too many candidates are never more than one too many, and then the oldest leaves that is not
the current one (`dropOldest_one`).

What an operation does to the records is said once, for the table (`Tends`, `tends_perform`) and for the record of one
peer (`Becomes`, `Tends.becomes`).  From this follow the bound of the table, the shape of the records, and where they come
from: a record begins with an introduction by a super peer, and a confirmed address only gives way to one that the peer
was heard from.  Probes go to distinct addresses, since a table holds one record for each peer (`probedAt_probes`).
`traversing_bounded` puts this together for every moment of a run.
-/

namespace Overlay

namespace TraversingPeer

variable {r r' : TraversingPeer} {addr : Address} {now : Nat}

/-! ### The addresses of a record -/

/-- The candidates are distinct, few, and the current address is one of them. -/
structure Proper (r : TraversingPeer) : Prop where
  nodup : r.candidates.Nodup
  few : r.candidates.length ≤ maxCandidates
  current : r.addr ∈ r.candidates

/-- Two records with the same addresses, and equally confirmed. -/
structure Alike (r r' : TraversingPeer) : Prop where
  addr : r'.addr = r.addr
  candidates : r'.candidates = r.candidates
  lastAckAt : r'.lastAckAt = r.lastAckAt

theorem Alike.refl (r : TraversingPeer) : Alike r r := ⟨rfl, rfl, rfl⟩

theorem alike_helloSent (r : TraversingPeer) (now : Nat) : Alike r (r.helloSent now) := by
  unfold helloSent
  split
  · exact ⟨rfl, rfl, rfl⟩
  · exact .refl r

theorem alike_applicationSeen (r : TraversingPeer) (now : Nat) : Alike r (r.applicationSeen now) := ⟨rfl, rfl, rfl⟩

theorem Alike.proper (h : Alike r r') (hr : r.Proper) : r'.Proper := by
  refine ⟨?_, ?_, ?_⟩
  · rw [h.candidates]
    exact hr.nodup
  · rw [h.candidates]
    exact hr.few
  · rw [h.addr, h.candidates]
    exact hr.current

theorem proper_ofAddress (addr : Address) : (ofAddress addr).Proper :=
  ⟨List.nodup_singleton addr, Nat.succ_le_succ (Nat.zero_le 7), List.mem_singleton_self addr⟩

theorem proper_acknowledged (r : TraversingPeer) (addr : Address) (now : Nat) : (r.acknowledged addr now).Proper :=
  ⟨List.nodup_singleton addr, Nat.succ_le_succ (Nat.zero_le 7), List.mem_singleton_self addr⟩

theorem dropOldest_one (keep : Address) (l : List Address) : dropOldest keep 1 l = l.eraseP (· ≠ keep) := by
  induction l with
  | nil => rfl
  | cons a l ih =>
    by_cases ha : a = keep
    · rw [dropOldest, if_pos ha, ih, List.eraseP_cons_of_neg (by simpa using ha)]
    · rw [dropOldest, if_neg ha, dropOldest, List.eraseP_cons_of_pos (by simpa using ha)]

theorem exists_mem_ne {l : List Address} (hnodup : l.Nodup) (hlong : 1 < l.length) (keep : Address) :
    ∃ old ∈ l, old ≠ keep := by
  match l, hnodup, hlong with
  | a :: b :: l, hnodup, _ =>
    by_cases ha : a = keep
    · refine ⟨b, by simp, fun hb => ?_⟩
      rw [List.nodup_cons, ha, ← hb] at hnodup
      exact hnodup.1 List.mem_cons_self
    · exact ⟨a, List.mem_cons_self, ha⟩

/-- What the candidates become when the peer is announced at an address: they stay if it is known, it is added if there is
room, and it takes the place of the oldest one that is not current if there is none. -/
theorem Proper.candidates_addCandidate (hr : r.Proper) (addr : Address) :
    addr ∈ r.candidates ∧ (r.addCandidate addr).candidates = r.candidates ∨
    addr ∉ r.candidates ∧ r.candidates.length < maxCandidates ∧
      (r.addCandidate addr).candidates = r.candidates ++ [addr] ∨
    addr ∉ r.candidates ∧ ∃ old ∈ r.candidates, old ≠ (r.addCandidate addr).addr ∧
      (r.addCandidate addr).candidates = r.candidates.eraseP (· ≠ (r.addCandidate addr).addr) ++ [addr] := by
  have hfew := hr.few
  by_cases hmem : addr ∈ r.candidates
  · have hnone : r.candidates.length - maxCandidates = 0 := by omega
    exact .inl ⟨hmem, by simp [addCandidate, hmem, hnone, dropOldest]⟩
  refine .inr ?_
  by_cases hroom : r.candidates.length < maxCandidates
  · have hnone : r.candidates.length + 1 - maxCandidates = 0 := by omega
    exact .inl ⟨hmem, hroom, by simp [addCandidate, hmem, hnone, dropOldest]⟩
  · have hone : r.candidates.length + 1 - maxCandidates = 1 := by omega
    have hlong : 1 < r.candidates.length := by simp only [maxCandidates] at hroom; omega
    have hdrop : (r.addCandidate addr).candidates =
        dropOldest (r.addCandidate addr).addr 1 (r.candidates ++ [addr]) := by
      simp [addCandidate, hmem, hone]
    obtain ⟨old, hold, hne⟩ := exists_mem_ne hr.nodup hlong (r.addCandidate addr).addr
    refine .inr ⟨hmem, old, hold, hne, ?_⟩
    rw [hdrop, dropOldest_one, List.eraseP_append_left (a := old) (by simpa using hne) _ hold]

theorem Proper.nodup_addCandidate (hr : r.Proper) (addr : Address) :
    (r.addCandidate addr).candidates.Nodup ∧ (r.addCandidate addr).candidates.length ≤ maxCandidates := by
  have hfew := hr.few
  have hadded : ∀ l : List Address, l.Sublist r.candidates → addr ∉ r.candidates → (l ++ [addr]).Nodup := by
    intro l hl hmem
    refine List.nodup_append.2 ⟨hr.nodup.sublist hl, List.nodup_singleton addr, ?_⟩
    rintro a ha b hb rfl
    exact hmem (List.mem_singleton.1 hb ▸ hl.subset ha)
  obtain ⟨-, heq⟩ | ⟨hmem, hroom, heq⟩ | ⟨hmem, old, hold, hne, heq⟩ := hr.candidates_addCandidate addr <;> rw [heq]
  · exact ⟨hr.nodup, hfew⟩
  · exact ⟨hadded _ (.refl _) hmem, by rw [List.length_append]; exact hroom⟩
  · refine ⟨hadded _ List.eraseP_sublist hmem, ?_⟩
    have hlength := List.length_eraseP_of_mem (p := (· ≠ (r.addCandidate addr).addr)) hold (by simpa using hne)
    have hpos := List.length_pos_of_mem hold
    rw [List.length_append, List.length_singleton, hlength]
    omega

theorem Proper.mem_addCandidate (hr : r.Proper) (addr : Address) : addr ∈ (r.addCandidate addr).candidates := by
  obtain ⟨hmem, heq⟩ | ⟨-, -, heq⟩ | ⟨-, -, -, -, heq⟩ := hr.candidates_addCandidate addr <;> rw [heq]
  · exact hmem
  · simp
  · simp

theorem Proper.addCandidate (hr : r.Proper) (addr : Address) : (r.addCandidate addr).Proper := by
  obtain ⟨hnodup, hfew⟩ := hr.nodup_addCandidate addr
  refine ⟨hnodup, hfew, ?_⟩
  by_cases hnever : r.lastAckAt = 0
  · have hcurrent : (r.addCandidate addr).addr = addr := if_pos hnever
    rw [hcurrent]
    exact hr.mem_addCandidate addr
  · have hcurrent : (r.addCandidate addr).addr = r.addr := if_neg hnever
    have hmem := hr.current
    obtain ⟨-, heq⟩ | ⟨-, -, heq⟩ | ⟨-, -, -, -, heq⟩ := hr.candidates_addCandidate addr <;> rw [heq, hcurrent]
    · exact hmem
    · exact List.mem_append_left _ hmem
    · exact List.mem_append_left _ ((List.mem_eraseP_of_neg (by simp)).2 hmem)

theorem Proper.setAddr (hr : r.Proper) (addr : Address) : (r.setAddr addr).Proper :=
  ⟨(hr.nodup_addCandidate addr).1, (hr.nodup_addCandidate addr).2, hr.mem_addCandidate addr⟩

/-- The addresses at which a peer is tried: distinct and few but not none, and only the current one once it is
confirmed. -/
structure Tries (r : TraversingPeer) (addrs : List Address) : Prop where
  nodup : addrs.Nodup
  some : 1 ≤ addrs.length
  few : addrs.length ≤ maxCandidates
  confirmed : r.isConfirmed = true → addrs = [r.addr]

theorem Proper.tries (hr : r.Proper) : r.Tries r.probed := by
  unfold probed
  split
  · exact ⟨List.nodup_singleton _, Nat.le_refl 1, Nat.succ_le_succ (Nat.zero_le 7), fun _ => rfl⟩
  · rename_i hno
    exact ⟨hr.nodup, List.length_pos_of_mem hr.current, hr.few, fun h => absurd h hno⟩

end TraversingPeer

/-- The address of a greeting that probes the direct path to a peer, and does not ask for a place as a child. -/
def Outbound.probe? (p : PublicKey) (m : Outbound) : Option Address :=
  match m.message with
  | .hello _ childrenTime => if m.recipient = p ∧ childrenTime = 0 then some m.addr else none
  | _ => none

namespace ChildSide

variable {c : ChildSide} {w : Watched ChildSide} {own p peer sender : PublicKey} {config : DiscoveryConfig}
  {ops : List (Nat × Operation)} {op : Operation} {t : Table PublicKey TraversingPeer} {r r' : TraversingPeer} {now : Nat}

/-! ### What an operation does to the direct paths -/

/-- What an operation makes of the table of direct paths. -/
inductive Tends (c : ChildSide) (now : Nat) : Operation → Table PublicKey TraversingPeer → Prop
  | idle (op : Operation) : Tends c now op c.traversing
  | heartbeat : Tends c now .heartbeat
      ((c.traversing.filter fun _ r => !c.isStalePath now r).mapValues fun _ r => r.helloSent now)
  | used (op : Operation) (peer : PublicKey) : Tends c now op (c.traversing.modify peer fun r => r.applicationSeen now)
  | greeted {sender : PublicKey} {r : TraversingPeer} (time childrenTime : UInt64) (addr : Address)
      (hr : c.traversing.get? sender = some r) :
      Tends c now (.receive sender (.hello time childrenTime) addr) (c.traversing.insert sender (r.setAddr addr))
  | acknowledged {sender : PublicKey} {r : TraversingPeer} (time : UInt64) (addr : Address)
      (hr : c.traversing.get? sender = some r) :
      Tends c now (.receive sender (.acknowledgement time) addr)
        (c.traversing.insert sender (r.acknowledged addr now))
  | introduced {sender peer : PublicKey} (at' addr : Address) (hsuper : c.isSuperPeer sender = true)
      (hown : peer ≠ c.own) (hroom : c.HasRoom peer) :
      Tends c now (.receive sender (.unite peer at') addr) (c.traversing.insert peer (c.introducedRecord now peer at'))

theorem traversing_acknowledgedBySuperPeer (c : ChildSide) (now : Nat) (sender : PublicKey) (time : UInt64)
    (addr : Address) : (c.acknowledgedBySuperPeer now sender time addr).2.traversing = c.traversing := by
  rcases c.acknowledgedBySuperPeer_cases now sender time addr with hno | ⟨r, -, hyes⟩
  · rw [hno]
  · rw [hyes]
    rfl

theorem tends_receive (c : ChildSide) (now : Nat) (sender : PublicKey) (m : DiscoveryMessage) (addr : Address) :
    Tends c now (.receive sender m addr) (c.receive now sender m addr).2.traversing := by
  cases m with
  | acknowledgement time =>
    simp only [receive]
    split
    · rw [traversing_acknowledgedBySuperPeer]
      exact .idle _
    · obtain hno | ⟨r, hr, hyes⟩ := c.acknowledgedOnPath_cases now sender time addr
      · rw [hno]
        exact .idle _
      · rw [hyes]
        exact .acknowledged time addr hr
  | hello time childrenTime =>
    simp only [receive]
    obtain hno | ⟨r, hr, hyes⟩ := c.greetedOnPath_cases now sender time childrenTime addr
    · rw [hno]
      exact .idle _
    · rw [hyes]
      exact .greeted time childrenTime addr hr
  | unite peer at' =>
    simp only [receive]
    obtain hno | ⟨hsuper, hown, hroom, hyes⟩ := c.introduced_cases now sender peer at'
    · rw [hno]
      exact .idle _
    · rw [hyes]
      exact .introduced at' addr hsuper hown hroom
  | application payload => exact .idle _

theorem tends_perform (now : Nat) (w : Watched ChildSide) (op : Operation) :
    Tends w.side now op (perform now w op).side.traversing := by
  cases op with
  | heartbeat => exact .heartbeat
  | receive sender m addr => exact tends_receive w.side now sender m addr
  | applicationSeen peer => exact .used _ peer
  | route peer =>
    simp only [perform, route]
    split
    · exact .used _ peer
    · exact .idle _
  | drainOutbox => exact .idle _
  | drainEvents => exact .idle _

/-- What an operation makes of the record of a peer. -/
inductive Becomes (c : ChildSide) (now : Nat) (p : PublicKey) (op : Operation) (r' : TraversingPeer) : Prop
  | kept (r : TraversingPeer) (hr : c.traversing.get? p = some r) (h : r.Alike r')
  | greeted (r : TraversingPeer) (time childrenTime : UInt64) (addr : Address) (hr : c.traversing.get? p = some r)
      (hop : op = .receive p (.hello time childrenTime) addr) (h : r' = r.setAddr addr)
  | acknowledged (r : TraversingPeer) (time : UInt64) (addr : Address) (hr : c.traversing.get? p = some r)
      (hop : op = .receive p (.acknowledgement time) addr) (h : r' = r.acknowledged addr now)
  | introduced (sender : PublicKey) (at' addr : Address) (hsuper : c.isSuperPeer sender = true) (hown : p ≠ c.own)
      (hop : op = .receive sender (.unite p at') addr) (h : r' = c.introducedRecord now p at')

theorem Tends.becomes (h : Tends c now op t) (hr' : t.get? p = some r') : Becomes c now p op r' := by
  have hkept : c.traversing.get? p = some r' → Becomes c now p op r' := fun hr => .kept r' hr (.refl r')
  cases h with
  | idle => exact hkept hr'
  | heartbeat =>
    rw [Table.get?_mapValues, Table.get?_filter] at hr'
    obtain ⟨r, hr, rfl⟩ := Option.map_eq_some_iff.1 hr'
    exact .kept r (Option.filter_eq_some_iff.1 hr).1 (TraversingPeer.alike_helloSent r now)
  | used _ peer =>
    rw [Table.get?_modify] at hr'
    split at hr'
    · obtain ⟨r, hr, rfl⟩ := Option.map_eq_some_iff.1 hr'
      exact .kept r hr (TraversingPeer.alike_applicationSeen r now)
    · exact hkept hr'
  | @greeted sender r time childrenTime addr hr =>
    rw [Table.get?_insert] at hr'
    split at hr'
    · rename_i hp
      subst hp
      exact .greeted r time childrenTime addr hr rfl (Option.some.inj hr').symm
    · exact hkept hr'
  | @acknowledged sender r time addr hr =>
    rw [Table.get?_insert] at hr'
    split at hr'
    · rename_i hp
      subst hp
      exact .acknowledged r time addr hr rfl (Option.some.inj hr').symm
    · exact hkept hr'
  | @introduced sender peer at' addr hsuper hown =>
    rw [Table.get?_insert] at hr'
    split at hr'
    · rename_i hp
      subst hp
      exact .introduced sender at' addr hsuper hown rfl (Option.some.inj hr').symm
    · exact hkept hr'

/-- The table stays as large, or shrinks, or there is room for the one more. -/
theorem Tends.size_le (h : Tends c now op t) :
    t.size ≤ c.traversing.size ∨
      t.size = c.traversing.size + 1 ∧ (c.config.maxPeers = 0 ∨ c.traversing.size < c.config.maxPeers) := by
  cases h with
  | idle => exact .inl (Nat.le_refl _)
  | heartbeat => exact .inl (Nat.le_trans (Nat.le_of_eq (List.length_map _)) (List.length_filter_le _ _))
  | used => exact .inl (Nat.le_of_eq (List.length_map _))
  | greeted _ _ _ hr => exact .inl (Nat.le_of_eq (Table.size_insert_known hr _))
  | acknowledged _ _ hr => exact .inl (Nat.le_of_eq (Table.size_insert_known hr _))
  | @introduced sender peer at' addr hsuper hown hroom =>
    cases hr : c.traversing.get? peer with
    | none => exact .inr ⟨Table.size_insert hr _, hroom hr⟩
    | some r => exact .inl (Nat.le_of_eq (Table.size_insert_known hr _))

theorem proper_introducedRecord (hc : ∀ p r, c.traversing.get? p = some r → r.Proper) (now : Nat) (peer : PublicKey)
    (addr : Address) : (c.introducedRecord now peer addr).Proper := by
  have hold : ((c.traversing.get? peer).getD (.ofAddress addr)).Proper := by
    cases hr : c.traversing.get? peer with
    | none => exact TraversingPeer.proper_ofAddress addr
    | some r => exact hc peer r hr
  have hadded := hold.addCandidate addr
  exact (TraversingPeer.alike_helloSent _ now).proper ((TraversingPeer.alike_applicationSeen _ now).proper hadded)

theorem Becomes.proper (h : Becomes c now p op r') (hc : ∀ p r, c.traversing.get? p = some r → r.Proper) :
    r'.Proper := by
  cases h with
  | kept r hr h => exact h.proper (hc p r hr)
  | greeted r _ _ addr hr _ h => exact h ▸ (hc p r hr).setAddr addr
  | acknowledged r _ addr _ _ h => exact h ▸ TraversingPeer.proper_acknowledged r addr now
  | introduced _ at' _ _ _ _ h => exact h ▸ proper_introducedRecord hc now p at'

/-- A message from a peer that tells where it is heard from. -/
def HeardFrom (p : PublicKey) (addr : Address) (op : Operation) : Prop :=
  (∃ time childrenTime, op = .receive p (.hello time childrenTime) addr) ∨
    ∃ time, op = .receive p (.acknowledgement time) addr

/-- A confirmed address only gives way to one that the peer was heard from. -/
theorem Becomes.addr (h : Becomes c now p op r') (hr : c.traversing.get? p = some r) (hconfirmed : r.isConfirmed = true) :
    r'.addr = r.addr ∨ HeardFrom p r'.addr op := by
  cases h with
  | kept r₀ hr₀ h =>
    obtain rfl : r₀ = r := Option.some.inj (hr₀.symm.trans hr)
    exact .inl h.addr
  | greeted _ time childrenTime _ _ hop h => exact .inr (.inl ⟨time, childrenTime, h ▸ hop⟩)
  | acknowledged _ time _ _ hop h => exact .inr (.inr ⟨time, h ▸ hop⟩)
  | introduced sender at' _ _ _ _ h =>
    refine .inl ?_
    have hnever : ¬ r.lastAckAt = 0 := Nat.pos_iff_ne_zero.1 (of_decide_eq_true hconfirmed)
    have halike : ((r.addCandidate at').applicationSeen now).helloSent now = r' := by
      rw [h, introducedRecord, hr, Option.getD_some]
    rw [← halike, (TraversingPeer.alike_helloSent _ now).addr]
    exact if_neg hnever

def Introduces (superPeer : PublicKey → Bool) (p : PublicKey) (op : Operation) : Prop :=
  ∃ sender at' addr, op = .receive sender (.unite p at') addr ∧ superPeer sender = true

theorem Becomes.introduces (h : Becomes c now p op r') (hnone : c.traversing.get? p = none) :
    Introduces c.isSuperPeer p op ∧ p ≠ c.own := by
  cases h with
  | kept _ hr | greeted _ _ _ _ hr | acknowledged _ _ _ hr =>
    rw [hnone] at hr
    cases hr
  | introduced sender at' addr hsuper hown hop => exact ⟨⟨sender, at', addr, hop, hsuper⟩, hown⟩

/-! ### Runs -/

theorem remains_receive (c : ChildSide) (now : Nat) (sender : PublicKey) (m : DiscoveryMessage) (addr : Address) :
    Remains c (c.receive now sender m addr).2 := by
  cases m with
  | acknowledgement time =>
    simp only [receive]
    split
    · exact (passes_acknowledgedBySuperPeer sender c now sender time addr).toRemains
    · obtain hno | ⟨r, -, hyes⟩ := c.acknowledgedOnPath_cases now sender time addr
      · rw [hno]
        exact ⟨rfl, rfl, fun _ => rfl⟩
      · rw [hyes]
        exact ⟨rfl, rfl, fun _ => rfl⟩
  | hello time childrenTime =>
    simp only [receive]
    obtain hno | ⟨r, hr, hyes⟩ := c.greetedOnPath_cases now sender time childrenTime addr
    · rw [hno]
      exact ⟨rfl, rfl, fun _ => rfl⟩
    · rw [hyes]
      exact ⟨rfl, rfl, fun _ => rfl⟩
  | unite peer at' =>
    simp only [receive]
    obtain hno | ⟨-, -, -, hyes⟩ := c.introduced_cases now sender peer at'
    · rw [hno]
      exact ⟨rfl, rfl, fun _ => rfl⟩
    · rw [hyes]
      exact ⟨rfl, rfl, fun _ => rfl⟩
  | application payload => exact ⟨rfl, rfl, fun _ => rfl⟩

theorem remains_perform (now : Nat) (w : Watched ChildSide) (op : Operation) :
    Remains w.side (perform now w op).side := by
  cases op with
  | heartbeat =>
    refine ⟨rfl, rfl, fun q => ?_⟩
    exact (isSuperPeer_mapValues _ _ q).trans (isSuperPeer_mapValues w.side _ q)
  | receive sender m addr => exact remains_receive w.side now sender m addr
  | applicationSeen peer => exact ⟨rfl, rfl, fun _ => rfl⟩
  | route peer =>
    simp only [perform, route]
    split <;> exact ⟨rfl, rfl, fun _ => rfl⟩
  | drainOutbox => exact ⟨rfl, rfl, fun _ => rfl⟩
  | drainEvents => exact ⟨rfl, rfl, fun _ => rfl⟩

theorem isSuperPeer_start (own : PublicKey) (config : DiscoveryConfig) (q : PublicKey) :
    (start own config).isSuperPeer q = (decide (q ≠ own) && config.superPeers.contains q) := by
  rw [isSuperPeer, Table.contains, start, Table.get?_mapValues, Table.get?_filter, Option.isSome_map, Table.contains]
  cases config.superPeers.get? q <;> by_cases hq : q = own <;> simp [hq]

theorem remains_run (own : PublicKey) (config : DiscoveryConfig) (ops : List (Nat × Operation)) :
    Remains (start own config) (run own config ops).side := by
  induction ops using List.reverseRecOn with
  | nil => exact ⟨rfl, rfl, fun _ => rfl⟩
  | append_singleton ops o ih =>
    rw [run_concat]
    have hstep := remains_perform o.1 (run own config ops) o.2
    exact ⟨hstep.config.trans ih.config, hstep.own.trans ih.own, fun q => (hstep.superPeers q).trans (ih.superPeers q)⟩

theorem tends_run (own : PublicKey) (config : DiscoveryConfig) (ops : List (Nat × Operation)) (o : Nat × Operation) :
    Tends (run own config ops).side o.1 o.2 (run own config (ops ++ [o])).side.traversing := by
  rw [run_concat]
  exact tends_perform o.1 _ o.2

theorem proper_run (own : PublicKey) (config : DiscoveryConfig) (ops : List (Nat × Operation)) :
    ∀ p r, (run own config ops).side.traversing.get? p = some r → r.Proper := by
  induction ops using List.reverseRecOn with
  | nil => exact fun _ _ h => by cases h
  | append_singleton ops o ih => exact fun p r hr => ((tends_run own config ops o).becomes hr).proper ih

theorem size_run (own : PublicKey) (config : DiscoveryConfig) (ops : List (Nat × Operation)) (hmax : config.maxPeers ≠ 0) :
    (run own config ops).side.traversing.size ≤ config.maxPeers := by
  induction ops using List.reverseRecOn with
  | nil => exact Nat.zero_le _
  | append_singleton ops o ih =>
    have hconfig : (run own config ops).side.config = config := (remains_run own config ops).config
    obtain hle | ⟨hsize, hroom⟩ := (tends_run own config ops o).size_le
    · exact Nat.le_trans hle ih
    · rw [hconfig] at hroom
      have := hroom.resolve_left hmax
      omega

/-- A peer that has a record was introduced by a super peer after each moment at which it had none. -/
theorem introduced_run (hr : (run own config ops).side.traversing.get? p = some r) :
    p ≠ own ∧ ∀ past later, ops = past ++ later → (run own config past).side.traversing.get? p = none →
      ∃ o ∈ later, Introduces (fun q => decide (q ≠ own) && config.superPeers.contains q) p o.2 := by
  induction ops using List.reverseRecOn generalizing r with
  | nil => cases hr
  | append_singleton ops o ih =>
    have hremains := remains_run own config ops
    have hsuper : (run own config ops).side.isSuperPeer = fun q => decide (q ≠ own) && config.superPeers.contains q :=
      funext fun q => (hremains.superPeers q).trans (isSuperPeer_start own config q)
    have hown : (run own config ops).side.own = own := hremains.own
    have hbecomes := (tends_run own config ops o).becomes hr
    have hlast : (run own config ops).side.traversing.get? p = none →
        p ≠ own ∧ Introduces (fun q => decide (q ≠ own) && config.superPeers.contains q) p o.2 := by
      intro hnone
      obtain ⟨hintroduces, hne⟩ := hbecomes.introduces hnone
      exact ⟨hown ▸ hne, hsuper ▸ hintroduces⟩
    refine ⟨?_, fun past later hops hnone => ?_⟩
    · cases hbefore : (run own config ops).side.traversing.get? p with
      | none => exact (hlast hbefore).1
      | some r₀ => exact (ih hbefore).1
    · induction later using List.reverseRecOn with
      | nil =>
        rw [List.append_nil] at hops
        rw [← hops, hr] at hnone
        cases hnone
      | append_singleton rest last _ =>
        rw [← List.append_assoc] at hops
        obtain ⟨rfl, hlasts⟩ := List.append_inj' hops rfl
        obtain rfl := List.singleton_inj.1 hlasts
        cases hbefore : (run own config (past ++ rest)).side.traversing.get? p with
        | none => exact ⟨o, by simp, (hlast hbefore).2⟩
        | some r₀ =>
          obtain ⟨o', ho', hintroduces⟩ := (ih hbefore).2 past rest rfl hnone
          exact ⟨o', List.mem_append_left _ ho', hintroduces⟩

/-! ### Probes -/

def probedAt (p : PublicKey) (messages : List Outbound) : List Address := messages.filterMap (·.probe? p)

theorem probedAt_probes (p q : PublicKey) (r : TraversingPeer) (now : Nat) :
    probedAt p (probes q r now) = if q = p then r.probed else [] := by
  rw [probedAt, probes, List.filterMap_map]
  split
  · rename_i hq
    refine (List.filterMap_congr fun addr _ => ?_).trans List.filterMap_some
    exact if_pos ⟨hq, rfl⟩
  · rename_i hq
    exact List.filterMap_eq_nil_iff.2 fun addr _ => if_neg fun h => hq h.1

theorem probedAt_flatMap {l : List (PublicKey × TraversingPeer)} (hl : (l.map Prod.fst).Nodup) (p : PublicKey)
    (now : Nat) : probedAt p (l.flatMap fun e => probes e.1 e.2 now) =
      ((Table.find p l).map TraversingPeer.probed).getD [] := by
  induction l with
  | nil => rfl
  | cons e l ih =>
    rw [List.map_cons, List.nodup_cons] at hl
    have hrest := ih hl.2
    rw [probedAt] at hrest
    rw [probedAt, List.flatMap_cons, List.filterMap_append, hrest, ← probedAt, probedAt_probes, Table.find]
    split
    · rename_i hp
      rw [Table.find_eq_none.2 (hp ▸ hl.1)]
      exact List.append_nil _
    · exact List.nil_append _

theorem probedAt_greetings (hpos : 0 < now) (hlast : now ≤ lastMoment) (p : PublicKey)
    (entries : List (PublicKey × SuperPeer)) :
    probedAt p (entries.map fun e => ⟨e.1, e.2.addr, .hello (.ofNat now) (.ofNat now)⟩) = [] := by
  rw [probedAt, List.filterMap_map]
  exact List.filterMap_eq_nil_iff.2 fun e _ => if_neg fun h => stamp_ne_zero hpos hlast h.2

theorem tries_heartbeat (hc : ∀ p r, (c.heartbeat now).traversing.get? p = some r → r.Proper) (hpos : 0 < now)
    (hlast : now ≤ lastMoment) : ∃ messages, (c.heartbeat now).outbox = c.outbox ++ messages ∧
      ∀ p r, (c.heartbeat now).traversing.get? p = some r → r.Tries (probedAt p messages) := by
  refine ⟨_, (outbox_heartbeat c now).trans (List.append_assoc ..), fun p r hr => ?_⟩
  have hprobes := probedAt_flatMap (c.heartbeat now).traversing.nodup p now
  have hfind : Table.find p (c.heartbeat now).traversing.entries = some r := hr
  rw [hfind, Option.map_some, Option.getD_some] at hprobes
  rw [probedAt, List.filterMap_append, ← probedAt, ← probedAt, probedAt_greetings hpos hlast, List.nil_append, hprobes]
  exact (hc p r hr).tries

theorem tries_introduced {addr : Address} (hc : ∀ p r, c.traversing.get? p = some r → r.Proper)
    (hcounts : (c.introduced now sender p addr).1 = true) :
    ∃ messages r, (c.introduced now sender p addr).2.outbox = c.outbox ++ messages ∧
      (c.introduced now sender p addr).2.traversing.get? p = some r ∧ r.Tries (probedAt p messages) := by
  obtain hno | ⟨-, -, -, hyes⟩ := c.introduced_cases now sender p addr
  · rw [hno] at hcounts
    cases hcounts
  · rw [hyes]
    refine ⟨_, c.introducedRecord now p addr, rfl, (Table.get?_insert ..).trans (if_pos rfl), ?_⟩
    rw [probedAt_probes, if_pos rfl]
    exact (proper_introducedRecord hc now p addr).tries

/-- **The peers a child tries to reach** are few, were introduced by super peers, and have few addresses, at all times.  A
confirmed address only gives way to one that the peer was heard from, and a peer is tried at each of its addresses, or
only at the confirmed one, at every heartbeat and whenever it is introduced. -/
theorem traversing_bounded (own : PublicKey) (config : DiscoveryConfig) (ops : List (Nat × Operation))
    (hclock : ∀ o ∈ ops, 0 < o.1 ∧ o.1 ≤ lastMoment) :
    (config.maxPeers ≠ 0 → (run own config ops).side.traversing.size ≤ config.maxPeers) ∧
    (∀ p r, (run own config ops).side.traversing.get? p = some r →
      p ≠ own ∧ r.Proper ∧ r.candidates ≠ [] ∧
      ∀ past later, ops = past ++ later → (run own config past).side.traversing.get? p = none →
        ∃ o ∈ later, Introduces (fun q => decide (q ≠ own) && config.superPeers.contains q) p o.2) ∧
    ∀ past now op later, ops = past ++ (now, op) :: later →
      let c := (run own config past).side
      let c' := (run own config (past ++ [(now, op)])).side
      (∀ p r r', c.traversing.get? p = some r → r.isConfirmed = true → c'.traversing.get? p = some r' →
        r'.addr = r.addr ∨ HeardFrom p r'.addr op) ∧
      (op = .heartbeat → ∃ messages, c'.outbox = c.outbox ++ messages ∧
        ∀ p r', c'.traversing.get? p = some r' → r'.Tries (probedAt p messages)) ∧
      ∀ sender p at' addr, op = .receive sender (.unite p at') addr →
        (c.receive now sender (.unite p at') addr).1 = true →
        ∃ messages r', c'.outbox = c.outbox ++ messages ∧ c'.traversing.get? p = some r' ∧
          r'.Tries (probedAt p messages) := by
  refine ⟨size_run own config ops, ?_, ?_⟩
  · intro p r hr
    have hproper := proper_run own config ops p r hr
    exact ⟨(introduced_run hr).1, hproper, List.ne_nil_of_mem hproper.current, (introduced_run hr).2⟩
  · rintro past now op later rfl c c'
    obtain ⟨hpos, hlast⟩ := hclock (now, op) (List.mem_append_right _ List.mem_cons_self)
    refine ⟨fun p r r' hr hconfirmed hr' => ?_, ?_, ?_⟩
    · exact ((tends_run own config past (now, op)).becomes hr').addr hr hconfirmed
    · rintro rfl
      have hproper : ∀ p r, c'.traversing.get? p = some r → r.Proper := proper_run own config _
      have hc' : c' = c.heartbeat now := congrArg Watched.side (run_concat own config past (now, .heartbeat))
      rw [hc'] at hproper ⊢
      exact tries_heartbeat hproper hpos hlast
    · rintro sender p at' addr rfl hcounts
      have hc' : c' = (c.introduced now sender p at').2 :=
        congrArg Watched.side (run_concat own config past (now, .receive sender (.unite p at') addr))
      rw [hc']
      exact tries_introduced (proper_run own config past) hcounts

/-- A peer is introduced, confirmed at one address and then heard from at another one, at which it stays when it is
introduced again.  There is no room for a second peer. -/
theorem traversing_bounded_moved :
    let s : PublicKey := ⟨.filled 32 2⟩
    let p : PublicKey := ⟨.filled 32 3⟩
    let a := Address.ofV4 10 0 0 1 7
    let b := Address.ofV4 10 0 0 2 7
    let config : DiscoveryConfig := { superPeers := .ofList [(s, default)], maxPeers := 1 }
    let ops : List (Nat × Operation) := [(1000, .receive s (.unite p a) default),
      (1001, .receive p (.acknowledgement 1000) a), (1002, .receive p (.hello 1002 0) b),
      (1003, .receive s (.unite ⟨.filled 32 4⟩ a) default), (1004, .receive s (.unite p default) default),
      (1005, .heartbeat)]
    let c := (run ⟨.filled 32 1⟩ config ops).side
    (∀ o ∈ ops, 0 < o.1 ∧ o.1 ≤ lastMoment) ∧ c.traversing.size ≤ 1 ∧
      ∃ r, c.traversing.get? p = some r ∧ r.addr = b ∧ r.candidates = [a, b, default] ∧ r.Proper := by
  intro s p a b config ops c
  have hclock : ∀ o ∈ ops, 0 < o.1 ∧ o.1 ≤ lastMoment := by decide
  obtain ⟨hsize, hrecords, -⟩ := traversing_bounded ⟨.filled 32 1⟩ config ops hclock
  have hrecord : c.traversing.get? p = some ⟨b, [a, b, default], 1000, 1001, 1004⟩ := by decide +kernel
  exact ⟨hclock, hsize (by decide), _, hrecord, rfl, rfl, (hrecords p _ hrecord).2.1⟩

end ChildSide

end Overlay
