import Overlay.Proofs.Discovery.ChildSide

/-!
# How long a direct path has been idle

The record of a peer on a direct path remembers when application data was last seen.  Every operation either counts that
anew or leaves it as it was (`ChildSide.Ages`): an introduction that is accepted and application data that is received
count it anew, and so does every look-up of the way to the peer that finds the direct path, whatever the message is for
(`ages_receive`, `ages_applicationSeen`, `ages_route`).  Greetings, acknowledgements and heartbeats do not.

A heartbeat drops a path and reports it exactly if the record is stale then (`get?_heartbeat`, `removed_heartbeat`).
-/

namespace Overlay

namespace ChildSide

variable {c c' c'' : ChildSide} {p q : PublicKey} {now : Nat} {touched touched' : Prop}

/-- Whatever record of a peer there is afterwards was touched now, or is as old as it was before. -/
structure Ages (p : PublicKey) (now : Nat) (touched : Prop) (c c' : ChildSide) : Prop where
  config : c'.config = c.config
  record : ∀ r', c'.traversing.get? p = some r' →
    (touched ∧ r'.lastApplicationAt = now) ∨
      (¬ touched ∧ ∃ r, c.traversing.get? p = some r ∧ r'.lastApplicationAt = r.lastApplicationAt)

namespace Ages

theorem untouched (hconfig : c'.config = c.config) (ht : c'.traversing.get? p = c.traversing.get? p) :
    Ages p now False c c' := by
  refine ⟨hconfig, ?_⟩
  intro r' hr
  exact Or.inr ⟨id, r', ht ▸ hr, rfl⟩

theorem refl (p : PublicKey) (now : Nat) (c : ChildSide) : Ages p now False c c := untouched rfl rfl

theorem congr (h : Ages p now touched c c') (ht : touched ↔ touched') : Ages p now touched' c c' :=
  ⟨h.config, fun r' hr => (h.record r' hr).imp (And.imp_left ht.1) (And.imp_left fun hn h => hn (ht.2 h))⟩

theorem trans (h : Ages p now touched c c') (h' : Ages p now touched' c' c'') :
    Ages p now (touched ∨ touched') c c'' := by
  refine ⟨h'.config.trans h.config, ?_⟩
  intro r'' hr''
  rcases h'.record r'' hr'' with ⟨ht, hage⟩ | ⟨ht', r', hr', hsame⟩
  · exact Or.inl ⟨Or.inr ht, hage⟩
  · rcases h.record r' hr' with ⟨ht, hage⟩ | ⟨ht, r, hr, hage⟩
    · exact Or.inl ⟨Or.inl ht, hsame.trans hage⟩
    · exact Or.inr ⟨fun hor => hor.elim ht ht', r, hr, hsame.trans hage⟩

theorem replaced {r r₀ : TraversingPeer} (hconfig : c'.config = c.config) (hr₀ : c.traversing.get? q = some r₀)
    (ht : c'.traversing = c.traversing.insert q r) (hr : r.lastApplicationAt = r₀.lastApplicationAt) :
    Ages p now False c c' := by
  refine ⟨hconfig, ?_⟩
  intro r' hr'
  rw [ht, Table.get?_insert] at hr'
  split at hr'
  · rename_i hp
    obtain rfl := Option.some.inj hr'
    exact Or.inr ⟨id, r₀, hp ▸ hr₀, hr⟩
  · exact Or.inr ⟨id, r', hr', rfl⟩

theorem renewed {r : TraversingPeer} (hconfig : c'.config = c.config) (ht : c'.traversing = c.traversing.insert q r)
    (hr : r.lastApplicationAt = now) : Ages p now (q = p) c c' := by
  refine ⟨hconfig, ?_⟩
  intro r' hr'
  rw [ht, Table.get?_insert] at hr'
  split at hr'
  · rename_i hp
    obtain rfl := Option.some.inj hr'
    exact Or.inl ⟨hp.symm, hr⟩
  · rename_i hp
    exact Or.inr ⟨fun h => hp h.symm, r', hr', rfl⟩

end Ages

/-! ### Messages -/

theorem lastApplicationAt_helloSent (r : TraversingPeer) (now : Nat) :
    (r.helloSent now).lastApplicationAt = r.lastApplicationAt := by
  unfold TraversingPeer.helloSent
  split <;> rfl

theorem ages_acknowledgedBySuperPeer (p : PublicKey) (c : ChildSide) (now : Nat) (sender : PublicKey) (time : UInt64)
    (addr : Address) : Ages p now False c (c.acknowledgedBySuperPeer now sender time addr).2 := by
  rcases c.acknowledgedBySuperPeer_cases now sender time addr with hno | ⟨r, -, hyes⟩
  · rw [hno]
    exact .refl p now c
  · rw [hyes]
    exact .untouched rfl rfl

theorem ages_acknowledgedOnPath (p : PublicKey) (c : ChildSide) (now : Nat) (sender : PublicKey) (time : UInt64)
    (addr : Address) : Ages p now False c (c.acknowledgedOnPath now sender time addr).2 := by
  rcases c.acknowledgedOnPath_cases now sender time addr with hno | ⟨r, hr, hyes⟩
  · rw [hno]
    exact .refl p now c
  · rw [hyes]
    exact .replaced (r := r.acknowledged addr now) rfl hr rfl rfl

theorem ages_greetedOnPath (p : PublicKey) (c : ChildSide) (now : Nat) (sender : PublicKey) (time childrenTime : UInt64)
    (addr : Address) : Ages p now False c (c.greetedOnPath now sender time childrenTime addr).2 := by
  rcases c.greetedOnPath_cases now sender time childrenTime addr with hno | ⟨r, hr, hyes⟩
  · rw [hno]
    exact .refl p now c
  · rw [hyes]
    exact .replaced (r := r.setAddr addr) rfl hr rfl rfl

/-- An introduction that is accepted counts as application data. -/
theorem ages_introduced (p : PublicKey) (c : ChildSide) (now : Nat) (sender peer : PublicKey) (addr : Address) :
    Ages p now (peer = p ∧ (c.introduced now sender peer addr).1 = true) c (c.introduced now sender peer addr).2 := by
  rcases c.introduced_cases now sender peer addr with hno | ⟨-, -, -, hyes⟩
  · rw [hno]
    exact (Ages.refl p now c).congr ⟨False.elim, fun h => Bool.false_ne_true h.2⟩
  · rw [hyes]
    have hrenewed : Ages p now (peer = p) c (post { c with
        traversing := c.traversing.insert peer (c.introducedRecord now peer addr) }
          (probes peer (c.introducedRecord now peer addr) now)) :=
      .renewed rfl rfl (lastApplicationAt_helloSent _ now)
    exact hrenewed.congr ⟨fun h => ⟨h, rfl⟩, And.left⟩

/-- Among the messages that are received, only an introduction that is accepted counts. -/
theorem ages_receive (p : PublicKey) (c : ChildSide) (now : Nat) (sender : PublicKey) (m : DiscoveryMessage)
    (addr : Address) :
    Ages p now ((∃ at', m = .unite p at') ∧ (c.receive now sender m addr).1 = true) c (c.receive now sender m addr).2 := by
  have hidle : (∀ at', m ≠ .unite p at') → Ages p now False c (c.receive now sender m addr).2 →
      Ages p now ((∃ at', m = .unite p at') ∧ (c.receive now sender m addr).1 = true) c
        (c.receive now sender m addr).2 :=
    fun hm h => h.congr ⟨False.elim, fun ht => ht.1.elim hm⟩
  cases m with
  | acknowledgement time =>
    refine hidle (by simp) ?_
    simp only [receive]
    split
    · exact ages_acknowledgedBySuperPeer p c now sender time addr
    · exact ages_acknowledgedOnPath p c now sender time addr
  | hello time childrenTime => exact hidle (by simp) (ages_greetedOnPath p c now sender time childrenTime addr)
  | unite peer at' =>
    refine (ages_introduced p c now sender peer at').congr (and_congr_left fun _ => ?_)
    constructor
    · rintro rfl
      exact ⟨at', rfl⟩
    · rintro ⟨_, h⟩
      cases h
      rfl
  | application payload => exact hidle (by simp) (.refl p now c)

theorem ages_applicationSeen (p : PublicKey) (c : ChildSide) (now : Nat) (peer : PublicKey) :
    Ages p now (peer = p) c (c.applicationSeen now peer) := by
  refine ⟨rfl, ?_⟩
  intro r' hr
  simp only [applicationSeen, Table.get?_modify] at hr
  split at hr
  · rename_i hp
    obtain ⟨r, -, rfl⟩ := Option.map_eq_some_iff.1 hr
    exact Or.inl ⟨hp.symm, rfl⟩
  · rename_i hp
    exact Or.inr ⟨fun h => hp h.symm, r', hr, rfl⟩

/-! ### Look-ups -/

/-- Some direct paths have been used, and nothing else has changed of the records. -/
structure Used (now : Nat) (used : PublicKey → Bool) (c c' : ChildSide) : Prop where
  config : c'.config = c.config
  record : ∀ p, c'.traversing.get? p =
    if used p then (c.traversing.get? p).map (·.applicationSeen now) else c.traversing.get? p
  direct : ∀ p, used p = true → (c.directPath? now p).isSome = true

variable {used used' : PublicKey → Bool}

theorem isSome_directPath? (c : ChildSide) (now : Nat) (p : PublicKey) : (c.directPath? now p).isSome =
    (c.traversing.get? p).any fun r => r.isConfirmed && !c.isStalePath now r := by
  unfold directPath?
  cases c.traversing.get? p with
  | none => rfl
  | some r =>
    rw [Option.bind_some, Option.any_some]
    cases r.isConfirmed && !c.isStalePath now r <;> rfl

theorem isStalePath_applicationSeen {r : TraversingPeer} (h : c.isStalePath now r = false) :
    c.isStalePath now (r.applicationSeen now) = false := by
  simp only [isStalePath, TraversingPeer.isStale, Bool.or_eq_false_iff, longAgo, decide_eq_false_iff_not] at h ⊢
  exact ⟨by simp only [TraversingPeer.applicationSeen]; omega, h.2⟩

theorem Used.isSome_directPath? (h : Used now used c c') (p : PublicKey) :
    (c'.directPath? now p).isSome = (c.directPath? now p).isSome := by
  have hstale : ∀ r, c'.isStalePath now r = c.isStalePath now r := by
    intro r
    unfold isStalePath
    rw [h.config]
  have hdirect := h.direct p
  simp only [ChildSide.isSome_directPath?, h.record, hstale] at hdirect ⊢
  split
  · rename_i hused
    have hbefore := hdirect hused
    rw [hbefore]
    obtain ⟨r, hr, hr'⟩ := (Option.any_eq_true _ _).1 hbefore
    rw [Bool.and_eq_true, Bool.not_eq_true'] at hr'
    have hconfirmed : (r.applicationSeen now).isConfirmed = true := hr'.1
    rw [hr, Option.map_some, Option.any_some, hconfirmed, isStalePath_applicationSeen hr'.2]
    rfl
  · rfl

theorem Used.refl (now : Nat) (c : ChildSide) : Used now (fun _ => false) c c :=
  ⟨rfl, fun _ => rfl, fun _ h => absurd h Bool.false_ne_true⟩

theorem Used.trans (h : Used now used c c') (h' : Used now used' c' c'') :
    Used now (fun p => used p || used' p) c c'' := by
  refine ⟨h'.config.trans h.config, ?_, ?_⟩
  · intro p
    rw [h'.record, h.record]
    cases used p <;> cases used' p <;> cases c.traversing.get? p <;> rfl
  · intro p hused
    rcases Bool.or_eq_true_iff.1 hused with hp | hp
    · exact h.direct p hp
    · rw [← h.isSome_directPath?]
      exact h'.direct p hp

theorem Used.congr (h : Used now used c c') (hu : ∀ p, used p = used' p) : Used now used' c c' := by
  obtain rfl : used = used' := funext hu
  exact h

theorem Used.ages (h : Used now used c c') (p : PublicKey) : Ages p now (used p = true) c c' := by
  refine ⟨h.config, ?_⟩
  intro r' hr
  rw [h.record] at hr
  split at hr
  · obtain ⟨r, -, rfl⟩ := Option.map_eq_some_iff.1 hr
    exact Or.inl ⟨by assumption, rfl⟩
  · exact Or.inr ⟨by assumption, r', hr, rfl⟩

theorem Used.isSome_get? (h : Used now used c c') (p : PublicKey) :
    (c'.traversing.get? p).isSome = (c.traversing.get? p).isSome := by
  rw [h.record]
  split
  · rw [Option.isSome_map]
  · rfl

theorem used_route (c : ChildSide) (now : Nat) (peer : PublicKey) :
    Used now (fun p => peer = p && (c.directPath? now p).isSome) c (c.route now peer).2 := by
  refine ⟨?_, ?_, fun p h => (Bool.and_eq_true_iff.1 h).2⟩
  · unfold route
    split <;> rfl
  · intro p
    unfold route
    cases hd : c.directPath? now peer with
    | some addr =>
      simp only [applicationSeen, Table.get?_modify]
      by_cases hp : p = peer
      · subst hp
        simp [hd]
      · simp [hp, Ne.symm hp]
    | none =>
      by_cases hp : peer = p
      · subst hp
        simp [hd]
      · simp [hp]

/-! ### Heartbeats -/

theorem get?_heartbeat (c : ChildSide) (now : Nat) (p : PublicKey) : (c.heartbeat now).traversing.get? p =
    ((c.traversing.get? p).filter fun r => !c.isStalePath now r).map (·.helloSent now) := by
  simp only [heartbeat, tendPaths, announce, post, Table.get?_mapValues, Table.get?_filter]
  rfl

theorem ages_heartbeat (p : PublicKey) (c : ChildSide) (now : Nat) : Ages p now False c (c.heartbeat now) := by
  refine ⟨rfl, ?_⟩
  intro r' hr
  rw [get?_heartbeat] at hr
  obtain ⟨r, hkept, rfl⟩ := Option.map_eq_some_iff.1 hr
  exact Or.inr ⟨id, r, (Option.filter_eq_some_iff.1 hkept).1, lastApplicationAt_helloSent r now⟩

theorem removed_heartbeat {r : TraversingPeer} (hr : c.traversing.get? p = some r) (hconfirmed : r.isConfirmed = true)
    (hstale : c.isStalePath now r = true) : .pathRemoved p .traversing ∈ (c.heartbeat now).events := by
  have hmem : (p, r) ∈ c.traversing.entries := Table.mem_entries.2 hr
  have hlost : (p, r) ∈ c.traversing.entries.filter fun e => c.isStalePath now e.2 && e.2.isConfirmed :=
    List.mem_filter.2 ⟨hmem, by rw [hstale, hconfirmed]; rfl⟩
  exact List.mem_append_right _ (List.mem_map.2 ⟨_, hlost, rfl⟩)

end ChildSide

end Overlay
